import FsmWorkbench.Validation.Core

set_option autoImplicit false

namespace FsmWorkbench

-- A name is left out only if neither an earlier one nor one seen before has its text.
theorem repeated_eq_nil_iff {seen : List String} {names : List Name} :
    repeated seen names = [] ↔
      (names.map Name.text).Nodup ∧ ∀ text ∈ names.map Name.text, text ∉ seen := by
  induction names generalizing seen with
  | nil => simp [repeated]
  | cons name names ih =>
    rw [repeated, List.map_cons, List.nodup_cons, List.forall_mem_cons]
    split
    · next known => simp [known]
    · next fresh =>
      rw [ih]
      simp only [List.mem_cons, not_or]
      constructor
      · rintro ⟨nodup, apart⟩
        exact ⟨⟨fun again => (apart _ again).1 rfl, nodup⟩, fresh, fun text member =>
          (apart text member).2⟩
      · rintro ⟨⟨once, nodup⟩, -, apart⟩
        refine ⟨nodup, fun text member => ⟨?_, apart text member⟩⟩
        rintro rfl
        exact once member

namespace Model

structure WellFormed (model : Model) : Prop where
  states : (model.states.map fun state => state.name.text).Nodup
  transitions : (model.transitions.map fun transition => transition.name.text).Nodup
  declared : ∀ transition ∈ model.transitions, ∀ name ∈ transition.endpoints,
    model.declares name.text = true
  initial : model.states = [] ∨ ∃ state, model.initialStates = [state]

variable {model : Model}

theorem duplicateStates_eq_nil_iff :
    model.duplicateStates = [] ↔ (model.states.map fun state => state.name.text).Nodup := by
  rw [duplicateStates, List.map_eq_nil_iff, repeated_eq_nil_iff, List.map_map]
  simp [Function.comp_def]

theorem duplicateTransitions_eq_nil_iff :
    model.duplicateTransitions = [] ↔
      (model.transitions.map fun transition => transition.name.text).Nodup := by
  rw [duplicateTransitions, List.map_eq_nil_iff, repeated_eq_nil_iff, List.map_map]
  simp [Function.comp_def]

theorem undefinedStates_eq_nil_iff :
    model.undefinedStates = [] ↔ ∀ transition ∈ model.transitions,
      ∀ name ∈ transition.endpoints, model.declares name.text = true := by
  rw [undefinedStates, List.map_eq_nil_iff, List.filter_eq_nil_iff]
  simp only [List.mem_flatMap, Bool.not_eq_true', Bool.not_eq_false, forall_exists_index, and_imp]
  exact ⟨fun each transition listed name ending => each name transition listed ending,
    fun each name transition listed ending => each transition listed name ending⟩

theorem initialIssues_eq_nil_iff :
    model.initialIssues = [] ↔ model.states = [] ∨ ∃ state, model.initialStates = [state] := by
  rw [initialIssues]
  split
  · next state more listed none =>
    -- There is a name to report the lack of an initial state at.
    have headed : model.headline?.toList ≠ [] := by
      cases named : model.machine <;> simp [headline?, named, listed]
    simp [headed, listed, none]
  · next states extra few =>
    cases listed : model.states with
    | nil => simp [initialStates, listed]
    | cons state more =>
      cases chosen : model.initialStates with
      | nil => exact absurd chosen (few state more listed)
      | cons first extra => simp

theorem coreIssues_eq_nil_iff : model.coreIssues = [] ↔ model.WellFormed := by
  have found := (Issue.arrange_perm (model.duplicateStates ++ model.duplicateTransitions ++
    model.undefinedStates ++ model.initialIssues)).length_eq
  rw [coreIssues, ← List.length_eq_zero_iff, found, List.length_eq_zero_iff]
  simp only [List.append_eq_nil_iff, duplicateStates_eq_nil_iff, duplicateTransitions_eq_nil_iff,
    undefinedStates_eq_nil_iff, initialIssues_eq_nil_iff]
  constructor
  · rintro ⟨⟨⟨states, transitions⟩, declared⟩, initial⟩
    exact ⟨states, transitions, declared, initial⟩
  · rintro ⟨states, transitions, declared, initial⟩
    exact ⟨⟨⟨states, transitions⟩, declared⟩, initial⟩

end Model

end FsmWorkbench
