import FsmWorkbench.Proofs.Description.Contents
import FsmWorkbench.Proofs.Validation.Rules
import FsmWorkbench.Services.Service
import Mathlib.Data.List.Nodup
import Mathlib.Data.List.Perm.Basic

set_option autoImplicit false

namespace FsmWorkbench

/-- States have names of their own, transitions join them, each transition leaves exactly one of
them, and there is one to start in unless there is none at all. -/
structure Description.Consistent (description : Description) : Prop where
  states : (description.states.map StateEntry.name).Nodup
  transitions : (description.transitions.map TransitionOutline.name).Nodup
  joined : ∀ transition ∈ description.transitions,
    ∀ name ∈ [transition.source, transition.target],
      (description.states.map StateEntry.name).count name = 1
  leaving : ∀ state ∈ description.states, state.outgoing =
    (description.transitions.filter fun transition => transition.source == state.name).map
      TransitionOutline.name
  shared : (description.states.flatMap StateEntry.outgoing).Perm
    (description.transitions.map TransitionOutline.name)
  null : description.initial = none ↔ description.states = []
  starts : description.states ≠ [] → ∃ state,
    description.states.filter StateEntry.initial = [state] ∧
      description.initial = some state.name

-- Sorting things by keys of which each has one loses nothing and repeats nothing.
theorem List.flatMap_filter_perm {α κ : Type} [DecidableEq κ] (key : α → κ) {keys : List κ}
    (nodup : keys.Nodup) {items : List α} (closed : ∀ item ∈ items, key item ∈ keys) :
    (keys.flatMap fun value => items.filter fun item => key item == value).Perm items := by
  induction keys generalizing items with
  | nil =>
    obtain rfl := List.eq_nil_iff_forall_not_mem.2 fun item member =>
      List.not_mem_nil (closed item member)
    exact .nil
  | cons first keys ih =>
    rw [List.nodup_cons] at nodup
    have others : ∀ item ∈ items.filter fun item => !(key item == first), key item ∈ keys := by
      intro item member
      rw [List.mem_filter, Bool.not_eq_true', beq_eq_false_iff_ne] at member
      exact (List.mem_cons.1 (closed item member.1)).resolve_left member.2
    have apart : ∀ value ∈ keys, (items.filter fun item => key item == value) =
        (items.filter fun item => !(key item == first)).filter fun item => key item == value := by
      intro value member
      have other : value ≠ first := fun same => nodup.1 (same ▸ member)
      rw [List.filter_filter]
      refine List.filter_congr fun item _ => ?_
      by_cases same : key item = value <;> simp [same, other]
    rw [List.flatMap_cons, List.flatMap_congr apart]
    exact ((ih nodup.2 others).append_left _).trans (List.filter_append_perm _ items)

namespace Model

variable {model : Model}

theorem count_of_declares (wellFormed : model.WellFormed) {name : String}
    (declared : model.declares name = true) :
    (model.states.map fun state => state.name.text).count name = 1 := by
  obtain ⟨state, listed, same⟩ := List.any_eq_true.1 declared
  apply List.count_eq_one_of_mem wellFormed.states
  exact List.mem_map.2 ⟨state, listed, eq_of_beq same⟩

theorem closed_of_wellFormed (wellFormed : model.WellFormed) :
    ∀ transition ∈ model.transitions,
      transition.source.text ∈ model.states.map fun state => state.name.text := by
  intro transition listed
  have declared := wellFormed.declared transition listed _ List.mem_cons_self
  exact List.count_pos_iff.1 (count_of_declares wellFormed declared ▸ Nat.one_pos)

theorem outgoing_description (info : LanguageInfo) (name : String) :
    ((model.description info).transitions.filter fun outline : TransitionOutline =>
        outline.source == name).map TransitionOutline.name =
      (model.outgoing name).map fun transition => transition.name.text := by
  simp only [description, List.filter_map, List.map_map, outgoing]
  rfl

theorem consistent_description (wellFormed : model.WellFormed) (info : LanguageInfo) :
    (model.description info).Consistent := by
  have names : (model.description info).states.map StateEntry.name =
      model.states.map fun state => state.name.text := List.map_map
  have transitions : (model.description info).transitions.map TransitionOutline.name =
      model.transitions.map fun transition => transition.name.text := List.map_map
  have initials : (model.description info).states.filter StateEntry.initial =
      model.initialStates.map (StateDecl.entry model) := List.filter_map
  constructor
  case states => exact names ▸ wellFormed.states
  case transitions => exact transitions ▸ wellFormed.transitions
  case joined =>
    intro outline member name ending
    obtain ⟨transition, listed, rfl⟩ := List.mem_map.1 member
    have place : name ∈ transition.endpoints.map Name.text := ending
    obtain ⟨endpoint, within, rfl⟩ := List.mem_map.1 place
    rw [names]
    exact count_of_declares wellFormed (wellFormed.declared transition listed endpoint within)
  case leaving =>
    intro entry member
    obtain ⟨state, -, rfl⟩ := List.mem_map.1 member
    exact (outgoing_description info state.name.text).symm
  case shared =>
    have parted := List.flatMap_filter_perm
      (fun transition : TransitionDecl => transition.source.text)
      wellFormed.states (closed_of_wellFormed wellFormed)
    rw [transitions]
    refine List.Perm.trans (.of_eq ?_) (parted.map fun transition => transition.name.text)
    rw [description, List.flatMap_map, List.flatMap_map, List.map_flatMap]
    rfl
  case null =>
    rw [description, Option.map_eq_none_iff, List.head?_eq_none_iff, List.map_eq_nil_iff]
    rcases wellFormed.initial with none | ⟨state, one⟩
    · simp [none, initialStates]
    · have listed : state ∈ model.states := List.mem_of_mem_filter (one ▸ List.mem_cons_self)
      simp [one, List.ne_nil_of_mem listed]
  case starts =>
    intro some
    obtain ⟨state, one⟩ := wellFormed.initial.resolve_left fun none =>
      some (List.map_eq_nil_iff.2 none)
    refine ⟨state.entry model, ?_, ?_⟩
    · rw [initials, one, List.map_singleton]
    · rw [description, one]
      rfl

end Model

theorem describe_consistent {model : Model} (passes : Validator.core.validate model = [])
    (info : LanguageInfo) :
    ∃ document description,
      (∀ pretty, (Generator.json info).generate model pretty = document.render pretty) ∧
        Description.read? document = some description ∧
        description.outline = model.outline ∧ description.Consistent := by
  have wellFormed : model.WellFormed := Model.coreIssues_eq_nil_iff.1 passes
  exact ⟨model.describe info, model.description info, fun _ => rfl, model.read?_describe info,
    model.outline_description info, Model.consistent_description wellFormed info⟩

theorem describe_consistent_door :
    let model : Model :=
      ⟨none, [⟨⟨"Open", ⟨6, 10⟩⟩, false, ⟨0, 11⟩⟩, ⟨⟨"Shut", ⟨17, 21⟩⟩, true, ⟨11, 30⟩⟩],
        [⟨⟨"open", ⟨41, 45⟩⟩, ⟨"Shut", ⟨51, 55⟩⟩, ⟨"Open", ⟨59, 63⟩⟩, some "", ⟨30, 72⟩⟩,
          ⟨⟨"knock", ⟨83, 88⟩⟩, ⟨"Shut", ⟨94, 98⟩⟩, ⟨"Shut", ⟨102, 106⟩⟩, none, ⟨72, 106⟩⟩]⟩
    Validator.core.validate model = [] ∧
      ∃ document description,
        (∀ pretty, (Generator.json .standard).generate model pretty = document.render pretty) ∧
          Description.read? document = some description ∧
          (description.states.flatMap StateEntry.outgoing).Perm ["open", "knock"] := by
  intro model
  have passes : Validator.core.validate model = [] :=
    Model.coreIssues_eq_nil_iff.2 ⟨by decide, by decide, by decide, .inr ⟨_, rfl⟩⟩
  obtain ⟨document, description, written, read, outline, consistent⟩ :=
    describe_consistent passes .standard
  refine ⟨passes, document, description, written, read, consistent.shared.trans (.of_eq ?_)⟩
  have transitions : description.transitions = model.outline.transitions :=
    congrArg Outline.transitions outline
  rw [transitions]
  rfl

end FsmWorkbench
