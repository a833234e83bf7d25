set_option autoImplicit false

namespace FsmWorkbench

def firstOfRuns {α : Type} (same : α → α → Bool) : List α → List α
  | [] => []
  | a :: rest =>
    match firstOfRuns same rest with
    | [] => [a]
    | b :: more => if same a b then a :: more else a :: b :: more

theorem mem_of_mem_firstOfRuns {α : Type} {same : α → α → Bool} {x : α} {xs : List α}
    (h : x ∈ firstOfRuns same xs) : x ∈ xs := by
  induction xs with
  | nil => simp [firstOfRuns] at h
  | cons a rest ih =>
    rw [firstOfRuns] at h
    split at h
    · simp_all
    · next b more runs =>
      rw [runs] at ih
      split at h
      · rcases List.mem_cons.1 h with rfl | h
        · simp
        · exact List.mem_cons_of_mem a (ih (List.mem_cons_of_mem b h))
      · rcases List.mem_cons.1 h with rfl | h
        · simp
        · exact List.mem_cons_of_mem a (ih h)

end FsmWorkbench
