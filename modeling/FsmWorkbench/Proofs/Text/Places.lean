import FsmWorkbench.Text.Location
import Mathlib.Data.List.Induction

set_option autoImplicit false

namespace FsmWorkbench.Text

theorem size_eq_zero_iff {cs : List Char} : size cs = 0 ↔ cs = [] := by
  cases cs with
  | nil => simp
  | cons c rest => simp [Nat.ne_of_gt c.utf8Size_pos]

def past (width : Char → Nat) (place : Nat × Nat) (c : Char) : Nat × Nat :=
  if c = '\n' then (place.1 + 1, 0) else (place.1, place.2 + width c)

-- An offset inside a character leads where the start of that character does.
theorem advance_within (width : Char → Nat) {front rest : List Char} {offset : Nat}
    (reached : size front ≤ offset) (inside : ∀ c ∈ rest.head?, offset < size front + c.utf8Size)
    (line column : Nat) :
    advance width (front ++ rest) offset line column = front.foldl (past width) (line, column) := by
  induction front generalizing offset line column with
  | nil =>
    cases rest with
    | nil => rfl
    | cons c rest =>
      have short : offset < c.utf8Size := by simpa using inside c rfl
      rw [List.nil_append, advance, if_pos short]
      rfl
  | cons c front ih =>
    rw [size_cons] at reached
    have still : ∀ d ∈ rest.head?, offset - c.utf8Size < size front + d.utf8Size := by
      intro d head
      have bound := inside d head
      rw [size_cons] at bound
      omega
    rw [List.cons_append, advance, if_neg (by omega), ih (by omega) still, ih (by omega) still,
      List.foldl_cons, past]
    split <;> rfl

theorem advance_size (width : Char → Nat) (front rest : List Char) (line column : Nat) :
    advance width (front ++ rest) (size front) line column =
      front.foldl (past width) (line, column) :=
  advance_within width (Nat.le_refl _)
    (fun c _ => Nat.lt_add_of_pos_right c.utf8Size_pos) line column

theorem foldl_past (front : List Char) :
    front.foldl (past fun _ => 1) (0, 0) =
      (front.count '\n', (front.reverse.takeWhile (· != '\n')).length) := by
  induction front using List.reverseRecOn with
  | nil => rfl
  | append_singleton front c ih =>
    rw [List.foldl_append, ih, List.foldl_cons, List.foldl_nil, past, List.count_append,
      List.reverse_append]
    by_cases feed : c = '\n'
    · subst feed
      simp
    · simp [feed]

theorem lineColumnOf_size (front rest : List Char) :
    lineColumnOf (front ++ rest) (size front) =
      (front.count '\n' + 1, (front.reverse.takeWhile (· != '\n')).length + 1) := by
  rw [lineColumnOf, advance_size, foldl_past]

theorem units_le_utf8Size (c : Char) : units c ≤ c.utf8Size := by
  rw [units]
  split
  · exact c.utf8Size_pos
  · next outside =>
    have wide : c.utf8Size ≠ 1 := by
      intro one
      have small := UInt32.le_iff_toNat_le.1 (Char.utf8Size_eq_one_iff.1 one)
      exact outside (Nat.lt_of_le_of_lt small (by decide))
    have positive := c.utf8Size_pos
    omega

-- Each character is at least as many bytes long as it is columns wide.
theorem advance_le {width : Char → Nat} (narrow : ∀ c, width c ≤ c.utf8Size) (cs : List Char)
    (offset line column : Nat) :
    (advance width cs offset line column).1 + (advance width cs offset line column).2 ≤
      line + column + size cs := by
  fun_induction advance width cs offset line column with
  | case1 | case2 => simp
  | case3 rest offset line column reached ih =>
    have positive := '\n'.utf8Size_pos
    rw [size_cons]
    omega
  | case4 c rest offset line column reached other ih =>
    have bound := narrow c
    rw [size_cons]
    omega

end FsmWorkbench.Text
