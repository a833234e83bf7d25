import FsmWorkbench.Proofs.Text.Positions
import FsmWorkbench.Text.LineIndex
import Mathlib.Order.Bounds.Basic

set_option autoImplicit false

namespace FsmWorkbench.Text

theorem exists_floor (cs : List Char) (offset : Nat) :
    ∃ front rest, cs = front ++ rest ∧ size front ≤ offset ∧
      ∀ c ∈ rest.head?, offset < size front + c.utf8Size := by
  induction cs generalizing offset with
  | nil => exact ⟨[], [], rfl, Nat.zero_le offset, by simp⟩
  | cons c cs ih =>
    by_cases short : offset < c.utf8Size
    · exact ⟨[], c :: cs, rfl, Nat.zero_le offset, by simpa using short⟩
    · obtain ⟨front, rest, rfl, reached, inside⟩ := ih (offset - c.utf8Size)
      refine ⟨c :: front, rest, rfl, by rw [size_cons]; omega, fun d head => ?_⟩
      have bound := inside d head
      rw [size_cons]
      omega

section Floor

variable {front rest : List Char} {offset : Nat}

theorem isGreatest_size (reached : size front ≤ offset)
    (inside : ∀ c ∈ rest.head?, offset < size front + c.utf8Size) :
    IsGreatest {place | Boundary (front ++ rest) place ∧
      place ≤ min offset (size (front ++ rest))} (size front) := by
  constructor
  · refine ⟨⟨front, rest, rfl, rfl⟩, ?_⟩
    rw [size_append]
    omega
  · rintro _ ⟨⟨other, tail, same, rfl⟩, within⟩
    rcases List.append_eq_append_iff.1 same with ⟨more, rfl, rfl⟩ | ⟨more, rfl, rfl⟩
    · cases more with
      | nil => simp
      | cons c more =>
        have bound := inside c rfl
        rw [size_append, size_cons] at within
        omega
    · rw [size_append]
      omega

theorem positionOf_within (reached : size front ≤ offset)
    (inside : ∀ c ∈ rest.head?, offset < size front + c.utf8Size) :
    positionOf (front ++ rest) offset = positionOf (front ++ rest) (size front) := by
  rw [positionOf, positionOf, advance_within units reached inside, advance_size]

end Floor

theorem startsBehind_append (front rest : List Char) (offset : Nat) :
    startsBehind (front ++ rest) offset =
      startsBehind front offset ++ startsBehind rest (offset + size front) := by
  induction front generalizing offset with
  | nil => rfl
  | cons c front ih =>
    simp only [List.cons_append, startsBehind, ih, size_cons, ← Nat.add_assoc]
    split <;> rfl

theorem length_startsBehind (cs : List Char) (offset : Nat) :
    (startsBehind cs offset).length = cs.count '\n' := by
  induction cs generalizing offset with
  | nil => rfl
  | cons c cs ih =>
    by_cases feed : c = '\n'
    · simp [startsBehind, feed, ih]
    · simp [startsBehind, feed, ih]

theorem within_of_mem_startsBehind {cs : List Char} {offset start : Nat}
    (member : start ∈ startsBehind cs offset) : offset < start ∧ start ≤ offset + size cs := by
  induction cs generalizing offset with
  | nil => cases member
  | cons c cs ih =>
    have positive := c.utf8Size_pos
    rw [startsBehind] at member
    rw [size_cons]
    split at member
    · rcases List.mem_cons.1 member with rfl | later
      · omega
      · have bounds := ih later
        omega
    · have bounds := ih member
      omega

namespace LineIndex

theorem stepBack?_eq_some {cs : List Char} {offset place : Nat}
    (greatest : IsGreatest {place | Boundary cs place ∧ place ≤ offset} place) :
    stepBack? cs offset = some place := by
  obtain ⟨⟨boundary, within⟩, least⟩ := greatest
  induction offset with
  | zero =>
    obtain rfl := Nat.le_zero.1 within
    rw [stepBack?, if_pos boundary]
  | succ offset ih =>
    rw [stepBack?]
    split
    · next here => exact congrArg some (Nat.le_antisymm (least ⟨here, Nat.le_refl _⟩) within)
    · next inside =>
      have before : place ≤ offset := by
        rcases Nat.le_succ_iff.1 within with before | rfl
        · exact before
        · exact absurd boundary inside
      refine ih ?_ before
      rintro other ⟨also, below⟩
      exact least ⟨also, Nat.le_succ_of_le below⟩

theorem slice?_part (front part rest : List Char) :
    slice? (front ++ (part ++ rest)) (size front) (size front + size part) = some part := by
  rw [slice?, ← List.append_assoc, ← size_append, cut?_append, Option.bind_some]
  dsimp only
  rw [cut?_append]
  rfl

theorem lineAt_size (front rest : List Char) :
    (ofText (front ++ rest)).lineAt (size front) = front.count '\n' := by
  have before : (startsBehind front 0).countP (· ≤ size front) = front.count '\n' := by
    rw [← length_startsBehind front 0, List.countP_eq_length]
    intro start member
    have bounds := within_of_mem_startsBehind member
    exact decide_eq_true (by omega)
  have behind : (startsBehind rest (0 + size front)).countP (· ≤ size front) = 0 := by
    rw [List.countP_eq_zero]
    intro start member
    have bounds := within_of_mem_startsBehind member
    simp only [decide_eq_true_eq]
    omega
  rw [lineAt, ofText, List.countP_cons_of_pos (by simp), startsBehind_append, List.countP_append,
    before, behind]
  rfl

theorem getElem?_starts {lines : List Char} (ended : Ended lines) (rest : List Char) :
    (ofText (lines ++ rest)).starts[lines.count '\n']? = some (size lines) := by
  rcases ended with rfl | ⟨more, rfl⟩
  · rfl
  · have start : startsBehind ['\n'] (size more) = [size (more ++ ['\n'])] := by
      rw [startsBehind, if_pos rfl, size_append]
      rfl
    rw [ofText, List.count_append, List.count_singleton_self, List.getElem?_cons_succ,
      startsBehind_append, startsBehind_append, Nat.zero_add, start, List.append_assoc,
      ← length_startsBehind more 0, List.getElem?_append_right (Nat.le_refl _), Nat.sub_self]
    rfl

theorem position?_ofText (cs : List Char) (offset : Nat) :
    (ofText cs).position? offset = some (Text.positionOf cs offset) := by
  obtain ⟨front, rest, rfl, reached, inside⟩ := exists_floor cs offset
  have place := stepBack?_eq_some (isGreatest_size reached inside)
  obtain ⟨lines, same, ended⟩ := exists_append_lastLine front
  have within := newline_not_mem_lastLine front
  have start : (ofText (front ++ rest)).starts[front.count '\n']? = some (size lines) := by
    conv_lhs => rw [same]
    rw [count_eq_count_append lines within, List.append_assoc]
    exact getElem?_starts ended _
  have part : slice? (front ++ rest) (size lines) (size front) = some (lastLine front) := by
    conv_lhs => rw [same]
    rw [size_append, List.append_assoc]
    exact slice?_part lines (lastLine front) rest
  have text : (ofText (front ++ rest)).text = front ++ rest := rfl
  rw [position?, text, place, Option.bind_some]
  dsimp only
  rw [lineAt_size, start, Option.getD_some, part, Option.map_some,
    positionOf_within reached inside, positionOf_size]

end LineIndex

-- The start of a line, with what is left from there on and where the next one starts.
theorem seekLine?_cases (cs : List Char) (line offset : Nat) :
    match (offset :: startsBehind cs offset)[line]? with
    | none => seekLine? cs line offset = none
    | some start => ∃ front rest, cs = front ++ rest ∧ start = offset + size front ∧
        seekLine? cs line offset = some (rest, start) ∧
        (offset :: startsBehind cs offset)[line + 1]? = (startsBehind rest start).head? := by
  induction cs generalizing line offset with
  | nil =>
    cases line with
    | zero => exact ⟨[], [], rfl, rfl, rfl, rfl⟩
    | succ line => rfl
  | cons c cs ih =>
    cases line with
    | zero => exact ⟨[], c :: cs, rfl, rfl, rfl, List.head?_eq_getElem?.symm⟩
    | succ line =>
      have later : match (startsBehind (c :: cs) offset)[line]? with
          | none => seekLine? (c :: cs) (line + 1) offset = none
          | some start => ∃ front rest, cs = front ++ rest ∧
              start = offset + c.utf8Size + size front ∧
              seekLine? (c :: cs) (line + 1) offset = some (rest, start) ∧
              (startsBehind (c :: cs) offset)[line + 1]? = (startsBehind rest start).head? := by
        rw [startsBehind, seekLine?]
        by_cases feed : c = '\n'
        · rw [if_pos feed, if_pos feed]
          exact ih line (offset + c.utf8Size)
        · rw [if_neg feed, if_neg feed]
          exact ih (line + 1) (offset + c.utf8Size)
      rw [List.getElem?_cons_succ, List.getElem?_cons_succ]
      cases found : (startsBehind (c :: cs) offset)[line]? with
      | none =>
        rw [found] at later
        exact later
      | some start =>
        rw [found] at later
        obtain ⟨front, rest, rfl, place, sought, next⟩ := later
        exact ⟨c :: front, rest, rfl, by rw [place, size_cons, Nat.add_assoc], sought, next⟩

theorem exists_line (rest : List Char) (start : Nat) :
    ∃ line more, rest = line ++ more ∧
      (startsBehind rest start).head?.getD (start + size rest) = start + size line ∧
      ∀ column offset, seekColumn? line column offset = seekColumn? rest column offset := by
  induction rest generalizing start with
  | nil => exact ⟨[], [], rfl, rfl, fun _ _ => rfl⟩
  | cons c rest ih =>
    rw [startsBehind]
    by_cases feed : c = '\n'
    · rw [if_pos feed]
      refine ⟨[c], rest, rfl, rfl, fun column offset => ?_⟩
      cases column with
      | zero => rfl
      | succ column => rw [seekColumn?, seekColumn?, if_pos feed, if_pos feed]
    · obtain ⟨line, more, rfl, stop, same⟩ := ih (start + c.utf8Size)
      rw [if_neg feed]
      refine ⟨c :: line, more, rfl, ?_, fun column offset => ?_⟩
      · rw [size_cons, size_cons, ← Nat.add_assoc, ← Nat.add_assoc, stop]
      · cases column with
        | zero => rfl
        | succ column => rw [seekColumn?, seekColumn?, same]

namespace LineIndex

theorem offsetOf?_ofText (cs : List Char) (position : Position) :
    (ofText cs).offsetOf? position = Text.offsetOf? cs position := by
  have sought := seekLine?_cases cs position.line.toNat 0
  rw [offsetOf?, Text.offsetOf?, ofText]
  dsimp only
  cases found : (0 :: startsBehind cs 0)[position.line.toNat]? with
  | none =>
    rw [found] at sought
    rw [show seekLine? cs position.line.toNat 0 = none from sought]
    rfl
  | some start =>
    rw [found] at sought
    obtain ⟨front, rest, rfl, place, reached, next⟩ := sought
    obtain ⟨line, more, rfl, stop, columns⟩ := exists_line rest start
    rw [Nat.zero_add] at place
    have part : slice? (front ++ (line ++ more)) start (start + size line) = some line := by
      rw [place]
      exact slice?_part front line more
    have whole : size (front ++ (line ++ more)) = start + size (line ++ more) := by
      rw [size_append, place]
    rw [reached, Option.bind_some, Option.bind_some, next, whole, stop, part, Option.bind_some,
      columns]

variable (index : LineIndex)

theorem eq_ofText : index = ofText index.text := by
  obtain ⟨text, starts, same⟩ := index
  subst same
  rfl

@[simp] theorem positionOf_eq (offset : Nat) :
    index.positionOf offset = Text.positionOf index.text offset := by
  rw [positionOf, index.eq_ofText, position?_ofText]
  rfl

@[simp] theorem offsetOf?_eq (position : Position) :
    index.offsetOf? position = Text.offsetOf? index.text position := by
  rw [index.eq_ofText, offsetOf?_ofText]
  rfl

@[simp] theorem text_ofText (cs : List Char) : (ofText cs).text = cs := rfl

end LineIndex

theorem extentOf_ofText (cs : List Char) (span : Span) :
    extentOf cs span = ⟨positionOf cs span.start, positionOf cs span.stop⟩ := by
  rw [extentOf, LineIndex.positionOf_eq, LineIndex.positionOf_eq, LineIndex.text_ofText]

theorem rounding_exact {cs : List Char} (small : size cs < UInt32.size) (offset : Nat) :
    (LineIndex.ofText cs).position? offset = some (positionOf cs offset) ∧
      ∃ boundary, IsGreatest {place | Boundary cs place ∧ place ≤ min offset (size cs)} boundary ∧
        offsetOf? cs (positionOf cs offset) = some boundary := by
  refine ⟨LineIndex.position?_ofText cs offset, ?_⟩
  obtain ⟨front, rest, rfl, reached, inside⟩ := exists_floor cs offset
  refine ⟨size front, isGreatest_size reached inside, ?_⟩
  rw [size_append] at small
  rw [positionOf_within reached inside]
  exact offsetOf?_positionOf rest (by omega)

theorem rounding_exact_inside :
    size "\r\n🚪é".toList < UInt32.size ∧
      positionOf "\r\n🚪é".toList 7 = ⟨1, 2⟩ ∧ offsetOf? "\r\n🚪é".toList ⟨1, 2⟩ = some 6 := by
  have small : size "\r\n🚪é".toList < UInt32.size := by decide
  have place : positionOf "\r\n🚪é".toList 7 = ⟨1, 2⟩ := by decide
  obtain ⟨-, boundary, ⟨⟨found, within⟩, least⟩, leads⟩ := rounding_exact small 7
  have sixth : 6 ≤ boundary := least ⟨by decide, by decide⟩
  have seventh : boundary ≤ 7 := within.trans (by decide)
  have other : boundary ≠ 7 := by
    rintro rfl
    exact absurd found (by decide)
  refine ⟨small, place, ?_⟩
  rw [← place, leads]
  exact congrArg some (by omega)

end FsmWorkbench.Text
