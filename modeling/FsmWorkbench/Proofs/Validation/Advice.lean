import FsmWorkbench.Validation.Advisory

set_option autoImplicit false

namespace FsmWorkbench

theorem Issue.filter_arrange_append {keep : Issue → Bool} {issues others : List Issue}
    (sorted : issues.Pairwise fun a b => a.le b = true) (kept : ∀ issue ∈ issues, keep issue = true)
    (dropped : ∀ issue ∈ others, keep issue = false) :
    (arrange (issues ++ others)).filter keep = issues := by
  have within : issues.Sublist (arrange (issues ++ others)) :=
    List.sublist_mergeSort le_trans le_total sorted (List.sublist_append_left issues others)
  have through : (issues ++ others).filter keep = issues := by
    rw [List.filter_append, List.filter_eq_self.2 kept,
      List.filter_eq_nil_iff.2 (by simpa using dropped), List.append_nil]
  have least := within.filter keep
  rw [List.filter_eq_self.2 kept] at least
  have many := ((arrange_perm (issues ++ others)).filter keep).length_eq
  rw [through] at many
  exact (least.eq_of_length many.symm).symm

namespace Model

variable (model : Model)

theorem severity_of_mem_coreIssues : ∀ issue ∈ model.coreIssues, issue.severity = .error := by
  intro issue member
  simp only [coreIssues, Issue.mem_arrange, List.mem_append, or_assoc] at member
  rcases member with found | found | found | found
  case inr.inr.inr =>
    rw [initialIssues] at found
    split at found <;>
      · obtain ⟨_, -, rfl⟩ := List.mem_map.1 found
        rfl
  all_goals
    obtain ⟨_, -, rfl⟩ := List.mem_map.1 found
    rfl

theorem severity_of_mem_advice :
    ∀ issue ∈ model.missingMachine ++ model.unreachableStates, issue.severity = .warning := by
  intro issue member
  rcases List.mem_append.1 member with missing | unreachable
  · rw [missingMachine] at missing
    split at missing
    · obtain rfl := List.mem_singleton.1 missing
      rfl
    · cases missing
  · rw [unreachableStates] at unreachable
    split at unreachable
    · cases unreachable
    · obtain ⟨_, -, rfl⟩ := List.mem_map.1 unreachable
      rfl

theorem filter_advise_coreIssues :
    (model.advise model.coreIssues).filter (·.severity == .error) = model.coreIssues := by
  rw [advise, List.append_assoc]
  apply Issue.filter_arrange_append (Issue.arrange_sorted _)
  · intro issue member
    rw [model.severity_of_mem_coreIssues issue member]
    rfl
  · intro issue member
    rw [model.severity_of_mem_advice issue member]
    rfl

end Model

end FsmWorkbench
