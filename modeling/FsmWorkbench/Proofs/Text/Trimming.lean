import FsmWorkbench.Text.Blank
import FsmWorkbench.Text.Lines
import Mathlib.Data.List.DropRight

set_option autoImplicit false

namespace FsmWorkbench.Text

theorem trimEnd_eq_rdropWhile (cs : List Char) : trimEnd cs = cs.rdropWhile isBlank := rfl

@[simp] theorem trimEnd_nil : trimEnd [] = [] := rfl

theorem trimEnd_eq_nil_iff {cs : List Char} : trimEnd cs = [] ↔ ∀ c ∈ cs, isBlank c = true :=
  List.rdropWhile_eq_nil_iff

theorem trimEnd_trimEnd (cs : List Char) : trimEnd (trimEnd cs) = trimEnd cs :=
  List.rdropWhile_idempotent isBlank cs

theorem trimEnd_isPrefix (cs : List Char) : trimEnd cs <+: cs :=
  List.rdropWhile_prefix ..

theorem mem_head?_of_trimEnd {cs : List Char} {c : Char} (head : c ∈ (trimEnd cs).head?) :
    c ∈ cs.head? := by
  obtain ⟨rest, whole⟩ := trimEnd_isPrefix cs
  rw [← whole, List.head?_append, Option.mem_def.1 head]
  rfl

theorem trimStart_cons_of_visible {c : Char} (visible : isBlank c = false) (cs : List Char) :
    trimStart (c :: cs) = c :: cs :=
  List.dropWhile_cons_of_neg (by simp [visible])

theorem trimEnd_cons (c : Char) (cs : List Char) :
    trimEnd (c :: cs) =
      if trimEnd cs = [] then if isBlank c then [] else [c] else c :: trimEnd cs := by
  simp only [trimEnd, List.reverse_cons, List.dropWhile_append, List.reverse_eq_nil_iff,
    List.isEmpty_iff]
  split
  · cases blank : isBlank c <;> simp [blank]
  · simp

theorem trimEnd_cons_eq_self_iff {c : Char} {cs : List Char} :
    trimEnd (c :: cs) = c :: cs ↔ trimEnd cs = cs ∧ (cs = [] → isBlank c = false) := by
  rw [trimEnd_cons]
  split
  · next none => cases cs <;> cases blank : isBlank c <;> simp_all
  · next some => cases cs <;> simp_all

theorem trimEnd_eq_self {cs : List Char} (visible : ∀ c ∈ cs, isBlank c = false) :
    trimEnd cs = cs := by
  rw [trimEnd_eq_rdropWhile, List.rdropWhile_eq_self_iff]
  intro nonempty
  simp [visible _ (List.getLast_mem nonempty)]

theorem trimEnd_concat {c : Char} (visible : isBlank c = false) (cs : List Char) :
    trimEnd (cs ++ [c]) = cs ++ [c] :=
  List.rdropWhile_concat_neg _ _ _ (by simp [visible])

-- What ends with no blank keeps trimming away from itself.
theorem trimEnd_append {front : List Char} (kept : trimEnd front = front) (rest : List Char) :
    trimEnd (front ++ rest) = front ++ trimEnd rest := by
  induction rest using List.reverseRecOn with
  | nil => simpa using kept
  | append_singleton rest c ih =>
    simp only [trimEnd_eq_rdropWhile] at ih ⊢
    rw [← List.append_assoc, List.rdropWhile_concat, List.rdropWhile_concat, ih]
    split
    · rfl
    · exact List.append_assoc ..

theorem trimStart_trimEnd (cs : List Char) : trimStart (trimEnd cs) = trim cs := by
  rw [trim]
  induction cs with
  | nil => rfl
  | cons c cs ih =>
    rw [trimEnd_cons]
    cases blank : isBlank c with
    | true =>
      rw [trimStart.eq_def (c :: cs), List.dropWhile_cons_of_pos blank]
      rw [trimStart.eq_def cs] at ih
      rw [← ih]
      split
      · next none => simp [none]
      · exact List.dropWhile_cons_of_pos blank
    | false =>
      rw [trimStart_cons_of_visible blank, trimEnd_cons]
      split
      · simp [trimStart, blank]
      · exact trimStart_cons_of_visible blank _

theorem trim_eq_nil_iff {cs : List Char} : trim cs = [] ↔ ∀ c ∈ cs, isBlank c = true := by
  rw [← trimEnd_eq_nil_iff]
  constructor
  · intro none
    rw [← trimStart_trimEnd] at none
    rw [trimEnd_eq_nil_iff]
    have blank := List.dropWhile_eq_nil_iff.1 none
    rw [← trimEnd_eq_nil_iff, trimEnd_trimEnd] at blank
    exact trimEnd_eq_nil_iff.1 blank
  · intro none
    rw [← trimStart_trimEnd, none]
    rfl

theorem newline_not_mem_of_mem_splitOn {cs line : List Char} (member : line ∈ cs.splitOn '\n') :
    '\n' ∉ line := by
  induction cs generalizing line with
  | nil =>
    obtain rfl := List.mem_singleton.1 member
    exact List.not_mem_nil
  | cons c cs ih =>
    rw [List.splitOn_cons_eq_if_modifyHead] at member
    split at member
    · rcases List.mem_cons.1 member with rfl | member
      · exact List.not_mem_nil
      · exact ih member
    · next feed =>
      cases split : cs.splitOn '\n' with
      | nil => exact absurd split (List.splitOn_ne_nil _ _)
      | cons first more =>
        rw [split] at member ih
        rcases List.mem_cons.1 member with rfl | member
        · rw [List.mem_cons, not_or]
          exact ⟨fun same => feed (beq_iff_eq.2 same.symm), ih List.mem_cons_self⟩
        · exact ih (List.mem_cons_of_mem _ member)

-- Only what follows the last line end makes a line more.
theorem exists_map_trimEnd_splitOn (cs : List Char) :
    ∃ count, (cs.splitOn '\n').map trimEnd =
      (lines cs).map trimEnd ++ List.replicate count [] := by
  fun_induction lines cs with
  | case1 => exact ⟨1, rfl⟩
  | case2 rest ih =>
    obtain ⟨count, same⟩ := ih
    refine ⟨count, ?_⟩
    rw [List.splitOn_cons_eq_if_modifyHead, if_pos (by decide), List.map_cons, same]
    rfl
  | case3 rest ih =>
    obtain ⟨count, same⟩ := ih
    refine ⟨count, ?_⟩
    rw [List.splitOn_cons_eq_if_modifyHead, if_neg (by decide),
      List.splitOn_cons_eq_if_modifyHead, if_pos (by decide), List.modifyHead_cons, List.map_cons,
      same]
    rfl
  | case4 c rest feed _ none ih =>
    obtain rfl := lines_eq_nil_iff.1 none
    refine ⟨0, ?_⟩
    rw [List.splitOn_cons_eq_if_modifyHead, if_neg (by simpa using feed)]
    rfl
  | case5 c rest feed _ line more split ih =>
    obtain ⟨count, same⟩ := ih
    refine ⟨count, ?_⟩
    rw [List.splitOn_cons_eq_if_modifyHead, if_neg (by simpa using feed)]
    rw [split] at same
    cases others : rest.splitOn '\n' with
    | nil => exact absurd others (List.splitOn_ne_nil _ _)
    | cons first later =>
      rw [others] at same
      obtain ⟨head, tail⟩ := List.cons.inj same
      rw [List.modifyHead_cons, List.map_cons, List.map_cons, List.cons_append, trimEnd_cons,
        trimEnd_cons c line, head, tail]
      rfl

end FsmWorkbench.Text
