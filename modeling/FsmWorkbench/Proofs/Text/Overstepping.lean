import FsmWorkbench.Proofs.Text.Indexing
import FsmWorkbench.Proofs.Text.Resolving

set_option autoImplicit false

namespace FsmWorkbench.Text

def Position.right (position : Position) : Position :=
  ⟨position.line, position.character + 1⟩

/-- The position is one column behind the line feed of its line, and the offset that of the start
of the next line. -/
def Oversteps (cs : List Char) (position : Position) (offset : Nat) : Prop :=
  ∃ before rest, cs = before ++ '\n' :: rest ∧ offset = size (before ++ ['\n']) ∧
    position = (positionOf cs (size before)).right

variable {cs : List Char} {position : Position} {offset : Nat}

section Columns

variable {front : List Char}

theorem positionOf_eq (rest : List Char) (line : position.line.toNat = front.count '\n')
    (character : position.character.toNat = breadth (lastLine front)) :
    positionOf (front ++ rest) (size front) = position := by
  rw [positionOf_size, ← line, ← character, UInt32.ofNat_toNat, UInt32.ofNat_toNat]

theorem right_positionOf_eq (rest : List Char) (line : position.line.toNat = front.count '\n')
    (character : position.character.toNat = breadth (lastLine front) + 1) :
    (positionOf (front ++ rest) (size front)).right = position := by
  have next : UInt32.ofNat (breadth (lastLine front)) + 1 = position.character := by
    rw [← UInt32.ofNat_toNat (x := position.character), character, UInt32.ofNat_add]
    rfl
  rw [positionOf_size, Position.right, next, ← line, UInt32.ofNat_toNat]

theorem line_positionOf (rest : List Char) (small : size front < UInt32.size) :
    (positionOf (front ++ rest) (size front)).line.toNat = front.count '\n' := by
  have bound := count_add_breadth_le_size front
  rw [positionOf_size, UInt32.toNat_ofNat_of_lt' (by omega)]

-- In a small text no column starts again from zero.
theorem character_right (rest : List Char) (small : size front + 1 < UInt32.size) :
    (positionOf (front ++ rest) (size front)).right.character.toNat =
      breadth (lastLine front) + 1 := by
  have bound := count_add_breadth_le_size front
  have within : breadth (lastLine front) + 1 < UInt32.size := by omega
  have told : (UInt32.ofNat (breadth (lastLine front))).toNat = breadth (lastLine front) :=
    UInt32.toNat_ofNat_of_lt' (Nat.lt_of_succ_lt within)
  rw [positionOf_size, Position.right, UInt32.toNat_add, told]
  exact Nat.mod_eq_of_lt within

end Columns

theorem Oversteps.unique {first second : Position} (left : Oversteps cs first offset)
    (right : Oversteps cs second offset) : first = second := by
  obtain ⟨before, rest, rfl, rfl, rfl⟩ := left
  obtain ⟨other, tail, same, sized, rfl⟩ := right
  have split : (before ++ ['\n']) ++ rest = (other ++ ['\n']) ++ tail := by simpa using same
  obtain ⟨rfl, -⟩ := List.append_inj' (eq_of_size_eq split sized) rfl
  rfl

theorem Oversteps.boundary (oversteps : Oversteps cs position offset) : Boundary cs offset := by
  obtain ⟨before, rest, rfl, rfl, -⟩ := oversteps
  exact ⟨before ++ ['\n'], rest, by simp, rfl⟩

theorem Oversteps.positionOf_ne (small : size cs < UInt32.size)
    (oversteps : Oversteps cs position offset) : positionOf cs offset ≠ position := by
  obtain ⟨before, rest, rfl, rfl, rfl⟩ := oversteps
  intro same
  have split : before ++ '\n' :: rest = (before ++ ['\n']) ++ rest := by simp
  have lines := congrArg (fun position => position.line.toNat) same
  rw [size_append] at small
  have behind : (positionOf (before ++ '\n' :: rest) (size (before ++ ['\n']))).line.toNat =
      before.count '\n' + 1 := by
    rw [split, line_positionOf rest (by simp at small ⊢; omega)]
    simp
  have here : (positionOf (before ++ '\n' :: rest) (size before)).right.line.toNat =
      before.count '\n' := line_positionOf _ (by omega)
  omega

theorem Oversteps.offsetOf?_eq (small : size cs < UInt32.size)
    (oversteps : Oversteps cs position offset) : offsetOf? cs position = some offset := by
  obtain ⟨before, rest, rfl, rfl, rfl⟩ := oversteps
  have narrow : size before + 1 < UInt32.size := by
    have positive := Char.utf8Size_pos '\n'
    rw [size_append, size_cons] at small
    omega
  have line : (positionOf (before ++ '\n' :: rest) (size before)).right.line.toNat =
      before.count '\n' := line_positionOf _ (Nat.lt_of_succ_lt narrow)
  rw [offsetOf?_append _ line (character_right _ narrow), seekColumn?, if_pos rfl, if_pos rfl,
    size_append]
  rfl

theorem offsetOf?_eq_some_iff (small : size cs < UInt32.size) :
    offsetOf? cs position = some offset ↔
      Boundary cs offset ∧ positionOf cs offset = position ∨ Oversteps cs position offset := by
  constructor
  · intro found
    obtain ⟨front, rest, rfl, rfl, place⟩ := offsetOf?_eq_some found
    cases place with
    | inl here => exact .inl ⟨⟨front, rest, rfl, rfl⟩, positionOf_eq rest here.1 here.2⟩
    | inr behind =>
      obtain ⟨before, rfl, line, character⟩ := behind
      have split : (before ++ ['\n']) ++ rest = before ++ '\n' :: rest := by simp
      refine .inr ⟨before, rest, split, rfl, ?_⟩
      rw [split, right_positionOf_eq _ line character]
  · rintro (⟨⟨front, rest, rfl, rfl⟩, rfl⟩ | oversteps)
    · rw [size_append] at small
      exact offsetOf?_positionOf rest (by omega)
    · exact oversteps.offsetOf?_eq small

theorem oversteps_of_behind {front rest : List Char} (ends : ∀ c ∈ rest.head?, c = '\n')
    (line : position.line.toNat = front.count '\n')
    (behind : breadth (lastLine front) < position.character.toNat)
    (found : offsetOf? (front ++ rest) position = some offset) :
    Oversteps (front ++ rest) position offset := by
  obtain ⟨more, character⟩ := Nat.exists_eq_add_of_lt behind
  rw [Nat.add_assoc] at character
  rw [offsetOf?_append rest line character] at found
  cases rest with
  | nil => cases found
  | cons c rest =>
    obtain rfl := ends c rfl
    rw [seekColumn?, if_pos rfl] at found
    split at found
    · next last =>
      subst last
      obtain rfl := Option.some.inj found
      have ended : size front + '\n'.utf8Size = size (front ++ ['\n']) := by simp
      exact ⟨front, rest, rfl, ended, (right_positionOf_eq _ line character).symm⟩
    · cases found

theorem overstepping_exact {cs : List Char} (small : size cs < UInt32.size) :
    (∀ position offset, offsetOf? cs position = some offset ↔
      Boundary cs offset ∧ positionOf cs offset = position ∨ Oversteps cs position offset) ∧
    (∀ position offset, offsetOf? cs position = some offset → Boundary cs offset ∧
      (positionOf cs offset = position ↔ ¬Oversteps cs position offset)) ∧
    (∀ first second offset, offsetOf? cs first = some offset → offsetOf? cs second = some offset →
      (first = second ↔ (Oversteps cs first offset ↔ Oversteps cs second offset))) ∧
    (∀ front rest position, cs = front ++ rest → (∀ c ∈ rest.head?, c = '\n') →
      position.line.toNat = front.count '\n' →
      breadth (lastLine front) < position.character.toNat →
      (offsetOf? cs position = none ↔ ¬∃ offset, Oversteps cs position offset)) ∧
    ((∀ position offset, offsetOf? cs position = some offset →
      positionOf cs offset = position) ↔ '\n' ∉ cs) := by
  have exact {position offset} (found : offsetOf? cs position = some offset) :
      Boundary cs offset ∧ (positionOf cs offset = position ↔ ¬Oversteps cs position offset) := by
    rcases (offsetOf?_eq_some_iff small).1 found with ⟨boundary, same⟩ | oversteps
    · exact ⟨boundary, iff_of_true same fun oversteps => oversteps.positionOf_ne small same⟩
    · refine ⟨oversteps.boundary, ?_⟩
      exact iff_of_false (oversteps.positionOf_ne small) (not_not_intro oversteps)
  refine ⟨fun _ _ => offsetOf?_eq_some_iff small, fun _ _ => exact, ?_, ?_, ?_⟩
  · intro first second offset one two
    constructor
    · rintro rfl
      exact Iff.rfl
    · intro alike
      by_cases oversteps : Oversteps cs first offset
      · exact oversteps.unique (alike.1 oversteps)
      · have second := (exact two).2.2 fun also => oversteps (alike.2 also)
        exact ((exact one).2.2 oversteps).symm.trans second
  · rintro front rest position rfl ends line behind
    rw [Option.eq_none_iff_forall_ne_some, ← not_exists]
    refine not_congr (exists_congr fun offset => ?_)
    exact ⟨oversteps_of_behind ends line behind, fun oversteps => oversteps.offsetOf?_eq small⟩
  · constructor
    · intro faithful feed
      obtain ⟨before, rest, same⟩ := List.append_of_mem feed
      have oversteps : Oversteps cs (positionOf cs (size before)).right (size (before ++ ['\n'])) :=
        ⟨before, rest, same, rfl, rfl⟩
      exact oversteps.positionOf_ne small (faithful _ _ (oversteps.offsetOf?_eq small))
    · intro inside position offset found
      refine (exact found).2.2 ?_
      rintro ⟨before, rest, rfl, -⟩
      simp at inside

-- The carriage return takes a column, and so does the line feed behind it.
theorem overstepping_exact_carriage :
    size "é\r\n🚪".toList < UInt32.size ∧
      offsetOf? "é\r\n🚪".toList ⟨0, 3⟩ = some 4 ∧ offsetOf? "é\r\n🚪".toList ⟨1, 0⟩ = some 4 ∧
      ¬(Oversteps "é\r\n🚪".toList ⟨0, 3⟩ 4 ↔ Oversteps "é\r\n🚪".toList ⟨1, 0⟩ 4) := by
  have small : size "é\r\n🚪".toList < UInt32.size := by decide
  obtain ⟨leads, -, alike, -⟩ := overstepping_exact small
  have past : Oversteps "é\r\n🚪".toList ⟨0, 3⟩ 4 :=
    ⟨"é\r".toList, "🚪".toList, by decide, by decide, by decide⟩
  have here := (leads ⟨0, 3⟩ 4).2 (.inr past)
  have next := (leads ⟨1, 0⟩ 4).2 (.inl ⟨by decide, by decide⟩)
  exact ⟨small, here, next, fun same => absurd ((alike _ _ _ here next).2 same) (by decide)⟩

theorem offsetOf?_behind_feed :
    size "ab\ncd".toList < UInt32.size ∧
      offsetOf? "ab\ncd".toList ⟨0, 3⟩ = some 3 ∧ positionOf "ab\ncd".toList 3 = ⟨1, 0⟩ ∧
      offsetOf? "ab\ncd".toList ⟨1, 0⟩ = some 3 := by
  decide

end FsmWorkbench.Text
