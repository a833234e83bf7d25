import FsmWorkbench.Proofs.Validation.Advice
import FsmWorkbench.Proofs.Validation.Reaching

set_option autoImplicit false

namespace FsmWorkbench.Model

def warnings (model : Model) : List Issue :=
  (if model.machine = none ∧ model.states ≠ [] then [⟨.missingMachine, ⟨0, 0⟩⟩] else []) ++
  if ∃ state ∈ model.states, state.initial = true then
    (model.states.filter fun state => ¬model.Reaches state.name.text).map fun state =>
      ⟨.unreachableState state.name.text, state.name.span⟩
  else []

variable {model : Model}

theorem missingMachine_eq : model.missingMachine =
    if model.machine = none ∧ model.states ≠ [] then [⟨.missingMachine, ⟨0, 0⟩⟩] else [] := by
  rw [missingMachine]
  congr 1
  simp

theorem unreachableStates_eq : model.unreachableStates =
    if ∃ state ∈ model.states, state.initial = true then
      (model.states.filter fun state => ¬model.Reaches state.name.text).map fun state =>
        ⟨.unreachableState state.name.text, state.name.span⟩
    else [] := by
  have unreached : (model.states.filter fun state => !model.reachable.contains state.name.text) =
      model.states.filter fun state => ¬model.Reaches state.name.text := by
    refine List.filter_congr fun state _ => ?_
    rw [Bool.eq_iff_iff, decide_eq_true_eq, ← mem_reachable_iff]
    simp
  have empty : model.reachable.isEmpty = true ↔ ¬∃ state ∈ model.states, state.initial = true := by
    simp [reachable_eq_nil_iff]
  simp only [unreachableStates, unreached, empty, ite_not]

theorem advice_eq : model.missingMachine ++ model.unreachableStates = model.warnings := by
  rw [missingMachine_eq, unreachableStates_eq, warnings]

theorem editorIssues_eq :
    model.editorIssues = Issue.arrange (model.coreIssues ++ model.warnings) := by
  rw [editorIssues, advise, List.append_assoc, advice_eq]

theorem filter_warning_perm :
    (model.editorIssues.filter fun issue => issue.severity == .warning).Perm model.warnings := by
  have errors : (model.coreIssues.filter fun issue => issue.severity == .warning) = [] := by
    refine List.filter_eq_nil_iff.2 fun issue member => ?_
    simp [model.severity_of_mem_coreIssues issue member]
  have due : (model.warnings.filter fun issue => issue.severity == .warning) = model.warnings := by
    refine List.filter_eq_self.2 fun issue member => ?_
    rw [← advice_eq] at member
    simp [model.severity_of_mem_advice issue member]
  have found := (Issue.arrange_perm (model.coreIssues ++ model.warnings)).filter
    fun issue => issue.severity == .warning
  rwa [← editorIssues_eq, List.filter_append, errors, due, List.nil_append] at found

theorem warnings_exact (model : Model) :
    (∃ rounds ≤ model.initialStates.length + model.transitions.length,
      (round model.edges)^[rounds] (model.initialStates.map fun state => state.name.text, []) =
        ([], model.reachable)) ∧
    (model.editorIssues.Pairwise fun a b =>
      a.span.start < b.span.start ∨ a.span.start = b.span.start ∧ a.code ≤ b.code) ∧
    (model.editorIssues.filter fun issue => issue.severity == .error) = model.coreIssues ∧
    (model.editorIssues.filter fun issue => issue.severity == .warning).Perm model.warnings := by
  refine ⟨?_, ?_, model.filter_advise_coreIssues, filter_warning_perm⟩
  · obtain ⟨rounds, ends, used⟩ :=
      exists_rounds model.edges (model.initialStates.map fun state => state.name.text) []
    rw [untaken_nil, edges, List.length_map, List.length_map] at used
    exact ⟨rounds, by omega, ends⟩
  · rw [editorIssues_eq]
    exact (Issue.arrange_sorted _).imp Issue.le_iff.1

end FsmWorkbench.Model
