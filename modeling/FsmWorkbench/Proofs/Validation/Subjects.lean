import FsmWorkbench.Model.Occurrence
import FsmWorkbench.Validation.Advisory

set_option autoImplicit false

namespace FsmWorkbench

def Problem.name? : Problem → Option String
  | .undefinedState name | .duplicateState name | .duplicateTransition name
  | .extraInitialState name | .unreachableState name => some name
  | .noInitialState | .missingMachine => none

theorem repeated_sublist (seen : List String) (names : List Name) :
    (repeated seen names).Sublist names := by
  induction names generalizing seen with
  | nil => exact .slnil
  | cons name names ih =>
    rw [repeated]
    split
    · exact (ih seen).cons_cons name
    · exact (ih _).cons name

namespace Model

variable {model : Model}

theorem name_mem_of_machine {machine : MachineDecl} (named : model.machine = some machine) :
    machine.name ∈ model.names.map Occurrence.name := by
  simp [names, named]

theorem name_mem_of_state {state : StateDecl} (listed : state ∈ model.states) :
    state.name ∈ model.names.map Occurrence.name := by
  simp only [names, List.map_append, List.mem_append, List.map_map]
  exact .inl (.inr (List.mem_map_of_mem listed))

theorem name_mem_of_transition {transition : TransitionDecl} {name : Name}
    (listed : transition ∈ model.transitions)
    (inside : name ∈ transition.name :: transition.endpoints) :
    name ∈ model.names.map Occurrence.name := by
  simp only [names, List.map_append, List.mem_append, List.map_flatMap, List.mem_flatMap]
  refine .inr ⟨transition, listed, ?_⟩
  simpa only [TransitionDecl.occurrences, List.map_cons, List.map_map, Function.comp_def,
    List.map_id'] using inside

theorem name_mem_of_headline {name : Name} (found : model.headline? = some name) :
    name ∈ model.names.map Occurrence.name := by
  cases named : model.machine with
  | none =>
    simp only [headline?, named] at found
    obtain ⟨state, first, rfl⟩ := Option.map_eq_some_iff.1 found
    exact name_mem_of_state (List.mem_of_mem_head? first)
  | some machine =>
    simp only [headline?, named, Option.some.injEq] at found
    exact found ▸ name_mem_of_machine named

inductive Concerns (model : Model) : Issue → Prop where
  | name {problem : Problem} {name : Name} (told : problem.name? = some name.text)
      (member : name ∈ model.names.map Occurrence.name) : model.Concerns ⟨problem, name.span⟩
  | headline {name : Name} (found : model.headline? = some name) :
      model.Concerns ⟨.noInitialState, name.span⟩
  | opening : model.Concerns ⟨.missingMachine, ⟨0, 0⟩⟩

theorem concerns_duplicateStates : ∀ issue ∈ model.duplicateStates, model.Concerns issue := by
  intro issue member
  obtain ⟨name, found, rfl⟩ := List.mem_map.1 member
  obtain ⟨state, listed, rfl⟩ := List.mem_map.1 ((repeated_sublist ..).subset found)
  exact .name rfl (name_mem_of_state listed)

theorem concerns_duplicateTransitions :
    ∀ issue ∈ model.duplicateTransitions, model.Concerns issue := by
  intro issue member
  obtain ⟨name, found, rfl⟩ := List.mem_map.1 member
  obtain ⟨transition, listed, rfl⟩ := List.mem_map.1 ((repeated_sublist ..).subset found)
  exact .name rfl (name_mem_of_transition listed List.mem_cons_self)

theorem concerns_undefinedStates : ∀ issue ∈ model.undefinedStates, model.Concerns issue := by
  intro issue member
  obtain ⟨name, found, rfl⟩ := List.mem_map.1 member
  obtain ⟨transition, listed, ending⟩ := List.mem_flatMap.1 (List.mem_filter.1 found).1
  exact .name rfl (name_mem_of_transition listed (List.mem_cons_of_mem _ ending))

theorem concerns_initialIssues : ∀ issue ∈ model.initialIssues, model.Concerns issue := by
  intro issue member
  rw [initialIssues] at member
  split at member
  · obtain ⟨name, found, rfl⟩ := List.mem_map.1 member
    exact .headline (Option.mem_toList.1 found)
  · obtain ⟨state, found, rfl⟩ := List.mem_map.1 member
    exact .name rfl (name_mem_of_state (List.mem_filter.1 (List.mem_of_mem_tail found)).1)

theorem concerns_missingMachine : ∀ issue ∈ model.missingMachine, model.Concerns issue := by
  intro issue member
  rw [missingMachine] at member
  split at member
  · obtain rfl := List.mem_singleton.1 member
    exact .opening
  · cases member

theorem concerns_unreachableStates : ∀ issue ∈ model.unreachableStates, model.Concerns issue := by
  intro issue member
  rw [unreachableStates] at member
  split at member
  · cases member
  · obtain ⟨state, found, rfl⟩ := List.mem_map.1 member
    exact .name rfl (name_mem_of_state (List.mem_filter.1 found).1)

theorem concerns_coreIssues : ∀ issue ∈ model.coreIssues, model.Concerns issue := by
  intro issue member
  simp only [coreIssues, Issue.mem_arrange, List.mem_append, or_assoc] at member
  rcases member with found | found | found | found
  · exact concerns_duplicateStates issue found
  · exact concerns_duplicateTransitions issue found
  · exact concerns_undefinedStates issue found
  · exact concerns_initialIssues issue found

theorem concerns_editorIssues : ∀ issue ∈ model.editorIssues, model.Concerns issue := by
  intro issue member
  simp only [editorIssues, advise, Issue.mem_arrange, List.mem_append, or_assoc] at member
  rcases member with found | found | found
  · exact concerns_coreIssues issue found
  · exact concerns_missingMachine issue found
  · exact concerns_unreachableStates issue found

end Model

end FsmWorkbench
