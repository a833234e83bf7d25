import FsmWorkbench.Proofs.Text.Positions

set_option autoImplicit false

namespace FsmWorkbench.Text

theorem breadth_append (cs ds : List Char) : breadth (cs ++ ds) = breadth cs + breadth ds := by
  induction cs with
  | nil => simp [breadth]
  | cons c cs ih => rw [List.cons_append, breadth, ih, breadth, Nat.add_assoc]

theorem lastLine_append {lines last : List Char} (ended : Ended lines) (inside : '\n' ∉ last) :
    lastLine (lines ++ last) = last := by
  induction last using List.reverseRecOn with
  | nil =>
    cases ended with
    | inl none => simp [none, lastLine_eq]
    | inr some =>
      obtain ⟨more, rfl⟩ := some
      simp [lastLine_eq]
  | append_singleton last c ih =>
    have other : c ≠ '\n' := by
      intro feed
      simp [feed] at inside
    rw [lastLine_eq, ← List.append_assoc, List.rtakeWhile_concat_pos _ _ _ (by simpa using other)]
    exact congrArg (· ++ [c]) (ih (by simp_all))

theorem lastLine_append_of_not_mem {front typed : List Char} (inside : '\n' ∉ typed) :
    lastLine (front ++ typed) = lastLine front ++ typed := by
  obtain ⟨above, split, ended⟩ := exists_append_lastLine front
  have free : '\n' ∉ lastLine front ++ typed := by
    simpa [inside] using newline_not_mem_lastLine front
  conv_lhs => rw [split, List.append_assoc]
  exact lastLine_append ended free

theorem seekLine?_eq_some {cs rest : List Char} {line offset found : Nat}
    (sought : seekLine? cs line offset = some (rest, found)) :
    ∃ lines, cs = lines ++ rest ∧ Ended lines ∧ lines.count '\n' = line ∧
      found = offset + size lines := by
  induction cs generalizing line offset with
  | nil =>
    cases line with
    | zero =>
      obtain ⟨rfl, rfl⟩ := Prod.mk.inj (Option.some.inj sought)
      exact ⟨[], rfl, .inl rfl, rfl, rfl⟩
    | succ => cases sought
  | cons c cs ih =>
    cases line with
    | zero =>
      obtain ⟨rfl, rfl⟩ := Prod.mk.inj (Option.some.inj sought)
      exact ⟨[], rfl, .inl rfl, rfl, rfl⟩
    | succ line =>
      rw [seekLine?] at sought
      split at sought
      · next feed =>
        obtain ⟨lines, rfl, ended, counted, rfl⟩ := ih sought
        refine ⟨c :: lines, rfl, .inr ?_, by simp [feed, counted], by simp [Nat.add_assoc]⟩
        cases ended with
        | inl none => exact ⟨[], by simp [none, feed]⟩
        | inr some =>
          obtain ⟨more, rfl⟩ := some
          exact ⟨c :: more, rfl⟩
      · next other =>
        obtain ⟨lines, rfl, ended, counted, rfl⟩ := ih sought
        cases ended with
        | inl none => simp [none] at counted
        | inr some =>
          obtain ⟨more, rfl⟩ := some
          refine ⟨c :: (more ++ ['\n']), rfl, .inr ⟨c :: more, rfl⟩, ?_, by simp [Nat.add_assoc]⟩
          rw [List.count_cons_of_ne other, counted]

theorem seekColumn?_eq_some {cs : List Char} {column offset found : Nat}
    (sought : seekColumn? cs column offset = some found) :
    ∃ front rest, cs = front ++ rest ∧ found = offset + size front ∧
      ('\n' ∉ front ∧ breadth front = column ∨
        ∃ line, front = line ++ ['\n'] ∧ '\n' ∉ line ∧ breadth line + 1 = column) := by
  fun_induction seekColumn? cs column offset with
  | case1 cs offset =>
    obtain rfl := Option.some.inj sought
    exact ⟨[], cs, rfl, rfl, .inl ⟨by simp, rfl⟩⟩
  | case2 | case4 | case6 => cases sought
  | case3 rest offset =>
    obtain rfl := Option.some.inj sought
    exact ⟨['\n'], rest, rfl, rfl, .inr ⟨[], rfl, by simp, rfl⟩⟩
  | case5 c rest column offset other fits ih =>
    obtain ⟨front, after, rfl, rfl, place⟩ := ih sought
    refine ⟨c :: front, after, rfl, by simp [Nat.add_assoc], ?_⟩
    cases place with
    | inl here =>
      obtain ⟨inside, wide⟩ := here
      refine .inl ⟨by simp [inside, Ne.symm other], ?_⟩
      rw [breadth, wide]
      omega
    | inr before =>
      obtain ⟨line, rfl, inside, wide⟩ := before
      refine .inr ⟨c :: line, rfl, by simp [inside, Ne.symm other], ?_⟩
      rw [breadth]
      omega

theorem offsetOf?_eq_some {cs : List Char} {position : Position} {offset : Nat}
    (found : offsetOf? cs position = some offset) :
    ∃ front rest, cs = front ++ rest ∧ offset = size front ∧
      (position.line.toNat = front.count '\n' ∧
          position.character.toNat = breadth (lastLine front) ∨
        ∃ before, front = before ++ ['\n'] ∧ position.line.toNat = before.count '\n' ∧
          position.character.toNat = breadth (lastLine before) + 1) := by
  obtain ⟨⟨tail, start⟩, down, across⟩ := Option.bind_eq_some_iff.1 found
  obtain ⟨lines, rfl, ended, counted, rfl⟩ := seekLine?_eq_some down
  obtain ⟨front, rest, rfl, rfl, place⟩ := seekColumn?_eq_some across
  refine ⟨lines ++ front, rest, by simp, by simp, ?_⟩
  cases place with
  | inl here =>
    obtain ⟨inside, wide⟩ := here
    left
    rw [count_eq_count_append lines inside, lastLine_append ended inside, counted, wide]
    exact ⟨rfl, rfl⟩
  | inr before =>
    obtain ⟨line, rfl, inside, wide⟩ := before
    refine .inr ⟨lines ++ line, by simp, ?_⟩
    rw [count_eq_count_append lines inside, lastLine_append ended inside, counted, wide]
    exact ⟨rfl, rfl⟩

theorem eq_of_size_eq {front rest front' rest' : List Char}
    (same : front ++ rest = front' ++ rest') (sized : size front = size front') :
    front = front' := by
  have cut := cut?_append front rest
  rw [same, sized, cut?_append] at cut
  exact (Prod.mk.inj (Option.some.inj cut)).1.symm

theorem exists_append_of_size_le {front rest front' rest' : List Char}
    (same : front ++ rest = front' ++ rest') (shorter : size front ≤ size front') :
    ∃ more, front' = front ++ more ∧ rest = more ++ rest' := by
  rcases List.append_eq_append_iff.1 same with ⟨more, whole, behind⟩ | ⟨more, whole, behind⟩
  · exact ⟨more, whole, behind⟩
  · obtain rfl : more = [] := size_eq_zero_iff.1 (by rw [whole, size_append] at shorter; omega)
    exact ⟨[], by simpa using whole.symm, by simpa using behind.symm⟩

theorem offsetOf?_ofNat_iff (front rest : List Char) (column : Nat) :
    offsetOf? (front ++ rest) ⟨UInt32.ofNat (front.count '\n'), UInt32.ofNat column⟩ =
        some (size front) ↔
      front.count '\n' < UInt32.size ∧ column % UInt32.size = breadth (lastLine front) := by
  constructor
  · intro found
    obtain ⟨other, tail, same, sized, place⟩ := offsetOf?_eq_some found
    obtain rfl := eq_of_size_eq same sized
    simp only [UInt32.toNat_ofNat'] at place
    cases place with
    | inl here => exact ⟨here.1 ▸ Nat.mod_lt _ (by decide), here.2⟩
    | inr before =>
      -- A line that was cut down is at least all lines that can be told before its own.
      obtain ⟨before, ended, line, -⟩ := before
      rw [ended, List.count_append, List.count_singleton_self] at line
      omega
  · intro fits
    exact offsetOf?_ofNat rest fits.1 fits.2

def Told (front : List Char) : Prop :=
  front.count '\n' < UInt32.size ∧ breadth (lastLine front) < UInt32.size

theorem told_of_size {front : List Char} (small : size front < UInt32.size) : Told front := by
  have bound := count_add_breadth_le_size front
  exact ⟨by omega, by omega⟩

theorem offsetOf?_positionOf_iff (front rest : List Char) :
    offsetOf? (front ++ rest) (positionOf (front ++ rest) (size front)) = some (size front) ↔
      Told front := by
  rw [positionOf_size, offsetOf?_ofNat_iff]
  refine and_congr_right fun _ => ⟨fun same => ?_, Nat.mod_eq_of_lt⟩
  exact same ▸ Nat.mod_lt _ (by decide)

theorem Told.of_append {front part : List Char} (told : Told (front ++ part))
    (inside : '\n' ∉ part) : Told front := by
  obtain ⟨lines, same, ended⟩ := exists_append_lastLine front
  have within := newline_not_mem_lastLine front
  generalize lastLine front = last at same within
  subst same
  have apart : '\n' ∉ last ++ part := by simp [within, inside]
  rw [Told, List.append_assoc, lastLine_append ended apart, breadth_append] at told
  rw [Told, lastLine_append ended within]
  rw [List.count_append, List.count_append] at told
  exact ⟨by rw [List.count_append]; omega, by omega⟩

/-- An extent that is that of a part of a text. Its ends lead back to the ends of that part exactly
if their lines and columns fit into 32 bits. -/
def Frames (cs : List Char) (extent : Extent) (part : List Char) : Prop :=
  ∃ front rest, cs = front ++ (part ++ rest) ∧
    (offsetOf? cs extent.start = some (size front) ∧
        offsetOf? cs extent.stop = some (size front + size part) ↔ Told (front ++ part))

theorem frames_part {part : List Char} (front rest : List Char) (inside : '\n' ∉ part) :
    Frames (front ++ (part ++ rest)) ⟨positionOf (front ++ (part ++ rest)) (size front),
      positionOf (front ++ (part ++ rest)) (size front + size part)⟩ part := by
  refine ⟨front, rest, rfl, ?_⟩
  rw [offsetOf?_positionOf_iff, ← size_append, ← List.append_assoc, offsetOf?_positionOf_iff]
  exact and_iff_right_of_imp fun told => told.of_append inside

theorem Frames.marks {cs part : List Char} {extent : Extent} (frames : Frames cs extent part)
    (small : size cs < UInt32.size) : Marks cs extent part := by
  obtain ⟨front, rest, rfl, leads⟩ := frames
  rw [← List.append_assoc, size_append] at small
  obtain ⟨start, stop⟩ := leads.2 (told_of_size (by omega))
  exact ⟨front, rest, rfl, start, stop⟩

theorem size_lastLine_le (cs : List Char) : size (lastLine cs) ≤ size cs := by
  obtain ⟨lines, same, -⟩ := exists_append_lastLine cs
  have whole := congrArg size same
  rw [size_append] at whole
  omega

section Widths

variable {cs : List Char}

theorem length_le_breadth (cs : List Char) : cs.length ≤ breadth cs := by
  induction cs with
  | nil => rfl
  | cons c cs ih =>
    have positive := units_pos c
    rw [List.length_cons, breadth]
    omega

theorem breadth_le_size (cs : List Char) : breadth cs ≤ size cs := by
  induction cs with
  | nil => rfl
  | cons c cs ih =>
    have narrow := units_le_utf8Size c
    rw [breadth, size_cons]
    omega

-- Only characters of the first plane take one unit each.
theorem length_eq_breadth_iff : cs.length = breadth cs ↔ ∀ c ∈ cs, c.toNat < 0x10000 := by
  induction cs with
  | nil => simp [breadth]
  | cons c cs ih =>
    have rest := length_le_breadth cs
    rw [List.forall_mem_cons, ← ih, List.length_cons, breadth, units]
    split <;> omega

theorem units_eq_utf8Size_iff {c : Char} : units c = c.utf8Size ↔ c.toNat < 0x80 := by
  have value : c.val.toNat = c.toNat := rfl
  rw [units, Char.utf8Size]
  simp only [UInt32.le_iff_toNat_le, value, UInt32.toNat_ofNatLT]
  split_ifs <;> omega

-- Only ASCII characters are one byte long for each unit.
theorem size_eq_breadth_iff : size cs = breadth cs ↔ ∀ c ∈ cs, c.toNat < 0x80 := by
  induction cs with
  | nil => simp [breadth]
  | cons c cs ih =>
    have here := units_le_utf8Size c
    have rest := breadth_le_size cs
    rw [List.forall_mem_cons, ← ih, ← units_eq_utf8Size_iff, size_cons, breadth]
    omega

end Widths

end FsmWorkbench.Text
