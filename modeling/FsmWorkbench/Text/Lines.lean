set_option autoImplicit false

namespace FsmWorkbench.Text

-- The lines without their line ends. Nothing follows a final line end.
def lines : List Char → List (List Char)
  | [] => []
  | '\n' :: rest => [] :: lines rest
  | '\r' :: '\n' :: rest => [] :: lines rest
  | c :: rest =>
    match lines rest with
    | [] => [[c]]
    | line :: more => (c :: line) :: more

theorem lines_eq_nil_iff {cs : List Char} : lines cs = [] ↔ cs = [] := by
  fun_cases lines cs <;> simp

theorem newline_not_mem_of_mem_lines {cs line : List Char} (h : line ∈ lines cs) :
    '\n' ∉ line := by
  fun_induction lines cs generalizing line with
  | case1 => simp at h
  | case2 rest ih | case3 rest ih =>
    rcases List.mem_cons.1 h with rfl | h
    · simp
    · exact ih h
  | case4 c rest feed _ none ih =>
    have : '\n' ≠ c := fun same => feed same.symm
    simp_all
  | case5 c rest feed _ first more split ih =>
    have : '\n' ≠ c := fun same => feed same.symm
    rcases List.mem_cons.1 h with rfl | h
    · have := @ih first (by simp [split])
      simp_all
    · exact ih (by simp [split, h])

end FsmWorkbench.Text
