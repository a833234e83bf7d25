import FsmWorkbench.Editor.Completion
import FsmWorkbench.Proofs.Text.Places
import Mathlib.Data.List.DropRight

set_option autoImplicit false

namespace FsmWorkbench.Text

theorem fst_foldl_past (width : Char → Nat) (cs : List Char) (place : Nat × Nat) :
    (cs.foldl (past width) place).1 = place.1 + cs.count '\n' := by
  induction cs generalizing place with
  | nil => rfl
  | cons c rest ih =>
    rw [List.foldl_cons, ih, past]
    split
    · next feed => simp [feed, Nat.add_assoc, Nat.add_comm 1]
    · next other => simp [other]

theorem foldl_past_of_not_mem {cs : List Char} (inside : '\n' ∉ cs) (line column : Nat) :
    cs.foldl (past units) (line, column) = (line, column + breadth cs) := by
  induction cs generalizing column with
  | nil => rfl
  | cons c rest ih =>
    have other : c ≠ '\n' := fun feed => inside (by simp [feed])
    have within : '\n' ∉ rest := fun member => inside (List.mem_cons_of_mem c member)
    rw [List.foldl_cons, past, if_neg other, ih within, breadth, Nat.add_assoc]

def Ended (lines : List Char) : Prop :=
  lines = [] ∨ ∃ more, lines = more ++ ['\n']

theorem lastLine_eq (cs : List Char) : lastLine cs = cs.rtakeWhile (· != '\n') := rfl

theorem newline_not_mem_lastLine (cs : List Char) : '\n' ∉ lastLine cs := by
  intro feed
  simpa using List.mem_rtakeWhile_imp feed

theorem exists_append_lastLine (cs : List Char) :
    ∃ lines, cs = lines ++ lastLine cs ∧ Ended lines := by
  induction cs using List.reverseRecOn with
  | nil => exact ⟨[], rfl, .inl rfl⟩
  | append_singleton cs c ih =>
    obtain ⟨lines, same, ended⟩ := ih
    by_cases feed : c = '\n'
    · exact ⟨cs ++ [c], by simp [lastLine_eq, feed], .inr ⟨cs, by rw [feed]⟩⟩
    · refine ⟨lines, ?_, ended⟩
      rw [lastLine_eq, List.rtakeWhile_concat_pos _ _ _ (by simpa using feed), ← List.append_assoc]
      exact congrArg (· ++ [c]) same

theorem count_eq_count_append {last : List Char} (lines : List Char) (inside : '\n' ∉ last) :
    (lines ++ last).count '\n' = lines.count '\n' := by
  rw [List.count_append, List.count_eq_zero.2 inside, Nat.add_zero]

theorem foldl_past_lines {lines : List Char} (ended : Ended lines) :
    lines.foldl (past units) (0, 0) = (lines.count '\n', 0) := by
  rcases ended with rfl | ⟨more, rfl⟩
  · rfl
  · rw [List.foldl_append, List.foldl_cons, List.foldl_nil, past, if_pos rfl, fst_foldl_past]
    simp

theorem foldl_past_units (front : List Char) :
    front.foldl (past units) (0, 0) = (front.count '\n', breadth (lastLine front)) := by
  obtain ⟨lines, same, ended⟩ := exists_append_lastLine front
  have inside := newline_not_mem_lastLine front
  generalize lastLine front = last at same inside
  subst same
  rw [count_eq_count_append lines inside, List.foldl_append, foldl_past_lines ended,
    foldl_past_of_not_mem inside, Nat.zero_add]

theorem positionOf_size (front rest : List Char) :
    positionOf (front ++ rest) (size front) =
      ⟨UInt32.ofNat (front.count '\n'), UInt32.ofNat (breadth (lastLine front))⟩ := by
  rw [positionOf, advance_size, foldl_past_units]

theorem count_add_breadth_le_size (front : List Char) :
    front.count '\n' + breadth (lastLine front) ≤ size front := by
  have bound := advance_le units_le_utf8Size (front ++ []) (size front) 0 0
  rw [advance_size, foldl_past_units, List.append_nil] at bound
  simpa using bound

theorem seekLine?_lines {lines : List Char} (ended : Ended lines) (rest : List Char)
    (offset : Nat) :
    seekLine? (lines ++ rest) (lines.count '\n') offset = some (rest, offset + size lines) := by
  rcases ended with rfl | ⟨more, rfl⟩
  · cases rest <;> rfl
  · induction more generalizing offset with
    | nil => simp [seekLine?]
    | cons c more ih =>
      have next := ih (offset + c.utf8Size)
      simp only [List.append_assoc, List.count_append, List.count_singleton_self, size_append] at next
      by_cases feed : c = '\n'
      · subst feed
        simpa [seekLine?, Nat.add_assoc] using next
      · simpa [seekLine?, feed, Nat.add_assoc] using next

theorem seekColumn?_append {cs : List Char} (inside : '\n' ∉ cs) (rest : List Char)
    (more offset : Nat) :
    seekColumn? (cs ++ rest) (breadth cs + more) offset =
      seekColumn? rest more (offset + size cs) := by
  induction cs generalizing offset with
  | nil => simp [breadth]
  | cons c cs ih =>
    have other : c ≠ '\n' := fun feed => inside (by simp [feed])
    have within : '\n' ∉ cs := fun member => inside (List.mem_cons_of_mem c member)
    obtain ⟨column, wide⟩ : ∃ column, breadth (c :: cs) + more = column + 1 :=
      ⟨breadth (c :: cs) + more - 1, by have := units_pos c; simp only [breadth]; omega⟩
    have left : column + 1 - units c = breadth cs + more := by
      rw [← wide, breadth, Nat.add_assoc, Nat.add_sub_cancel_left]
    have fits : units c ≤ column + 1 := by rw [← wide, breadth]; omega
    rw [wide, List.cons_append, seekColumn?, if_neg other, if_pos fits, left, ih within, size_cons,
      Nat.add_assoc]

theorem offsetOf?_append {front : List Char} (rest : List Char) {position : Position} {more : Nat}
    (line : position.line.toNat = front.count '\n')
    (character : position.character.toNat = breadth (lastLine front) + more) :
    offsetOf? (front ++ rest) position = seekColumn? rest more (size front) := by
  obtain ⟨lines, same, ended⟩ := exists_append_lastLine front
  have inside := newline_not_mem_lastLine front
  generalize lastLine front = last at same inside character
  subst same
  rw [count_eq_count_append lines inside] at line
  rw [offsetOf?, line, character, List.append_assoc, seekLine?_lines ended, Option.bind_some]
  dsimp only
  rw [seekColumn?_append inside, Nat.zero_add, size_append]

theorem offsetOf?_ofNat {front : List Char} (rest : List Char) {column : Nat}
    (line : front.count '\n' < UInt32.size)
    (fits : column % UInt32.size = breadth (lastLine front)) :
    offsetOf? (front ++ rest) ⟨UInt32.ofNat (front.count '\n'), UInt32.ofNat column⟩ =
      some (size front) := by
  have down : (UInt32.ofNat (front.count '\n')).toNat = front.count '\n' :=
    UInt32.toNat_ofNat_of_lt' line
  have across : (UInt32.ofNat column).toNat = breadth (lastLine front) + 0 := by
    rw [UInt32.toNat_ofNat']
    exact fits
  rw [offsetOf?_append rest down across, seekColumn?]

theorem offsetOf?_positionOf {front : List Char} (rest : List Char)
    (small : size front < UInt32.size) :
    offsetOf? (front ++ rest) (positionOf (front ++ rest) (size front)) = some (size front) := by
  have bound := count_add_breadth_le_size front
  rw [positionOf_size]
  exact offsetOf?_ofNat rest (by omega) (Nat.mod_eq_of_lt (by omega))

/-- The ends of an extent lead back to the ends of a given part of a text. -/
def Marks (cs : List Char) (extent : Extent) (part : List Char) : Prop :=
  ∃ front rest, cs = front ++ (part ++ rest) ∧ offsetOf? cs extent.start = some (size front) ∧
    offsetOf? cs extent.stop = some (size front + size part)

theorem marks_part {front part : List Char} (rest : List Char)
    (small : size front + size part < UInt32.size) :
    Marks (front ++ (part ++ rest)) ⟨positionOf (front ++ (part ++ rest)) (size front),
      positionOf (front ++ (part ++ rest)) (size front + size part)⟩ part := by
  refine ⟨front, rest, rfl, offsetOf?_positionOf _ (by omega), ?_⟩
  rw [← size_append] at small
  rw [← List.append_assoc, ← size_append]
  exact offsetOf?_positionOf rest small

end FsmWorkbench.Text
