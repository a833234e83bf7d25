import FsmWorkbench.Proofs.Notation.Declaring

set_option autoImplicit false

namespace FsmWorkbench

inductive Model.Mentions (model : Model) : Occurrence → Prop where
  | machine {decl : MachineDecl} (declared : model.machine = some decl) :
      Mentions model ⟨.machine, decl.name, true⟩
  | state {decl : StateDecl} (declared : decl ∈ model.states) :
      Mentions model ⟨.state, decl.name, true⟩
  | transition {decl : TransitionDecl} (declared : decl ∈ model.transitions) :
      Mentions model ⟨.transition, decl.name, true⟩
  | source {decl : TransitionDecl} (declared : decl ∈ model.transitions) :
      Mentions model ⟨.state, decl.source, false⟩
  | target {decl : TransitionDecl} (declared : decl ∈ model.transitions) :
      Mentions model ⟨.state, decl.target, false⟩

namespace Model

variable {text : String} {model : Model}

theorem mem_occurrences_iff_mentions {occurrence : Occurrence} :
    occurrence ∈ model.occurrences ↔ model.Mentions occurrence := by
  rw [mem_occurrences]
  constructor
  · intro member
    simp only [names, List.mem_append, Option.mem_toList, Option.map_eq_some_iff, List.mem_map,
      List.mem_flatMap, TransitionDecl.occurrences, TransitionDecl.endpoints, List.mem_cons,
      List.not_mem_nil, or_false] at member
    rcases member with (⟨decl, declared, rfl⟩ | ⟨decl, declared, rfl⟩) | ⟨decl, declared, member⟩
    · exact .machine declared
    · exact .state declared
    · rcases member with rfl | ⟨endpoint, rfl | rfl, rfl⟩
      · exact .transition declared
      · exact .source declared
      · exact .target declared
  · intro mentioned
    cases mentioned with
    | machine declared => simp [names, declared]
    | state declared =>
      exact List.mem_append_left _ (List.mem_append_right _ (List.mem_map_of_mem declared))
    | transition declared | source declared | target declared =>
      refine List.mem_append_right _ (List.mem_flatMap.2 ⟨_, declared, ?_⟩)
      simp [TransitionDecl.occurrences, TransitionDecl.endpoints]

theorem length_occurrences (model : Model) :
    model.occurrences.length =
      model.machine.toList.length + model.states.length + 3 * model.transitions.length := by
  have endings : ∀ decl : TransitionDecl, decl.occurrences.length = 3 := fun _ => rfl
  rw [model.occurrences_perm.length_eq, names, List.length_append, List.length_append,
    List.length_map, List.length_flatMap, List.map_congr_left fun decl _ => endings decl]
  cases model.machine <;> simp [Nat.mul_comm]

theorem occurrences_eq (parsed : parse text = .ok model) :
    model.occurrences = model.declarations.flatMap Declaration.occurrences := by
  have names : (model.declarations.flatMap Declaration.occurrences).map Occurrence.name =
      model.declarations.flatMap Declaration.names := by
    rw [List.map_flatMap]
    simp only [Declaration.map_name_occurrences]
  have starts : (model.declarations.flatMap Declaration.occurrences).Pairwise
      fun a b => a.name.span.start < b.name.span.start := by
    have sorted := starts_names parsed
    rw [← names, List.map_map, List.pairwise_map] at sorted
    exact sorted
  have distinct : ((model.declarations.flatMap Declaration.occurrences).map
      fun occurrence => occurrence.name.span.start).Nodup :=
    List.pairwise_map.2 (starts.imp Nat.ne_of_lt)
  have same := model.occurrences_perm.trans model.names_perm
  refine same.eq_of_pairwise (fun a b first second below above => ?_) model.occurrences_sorted
    (starts.imp fun lt => by simpa [Occurrence.le] using Nat.le_of_lt lt)
  simp only [Occurrence.le, decide_eq_true_eq] at below above
  exact List.inj_on_of_nodup_map distinct (same.subset first) second (Nat.le_antisymm below above)

theorem map_name_occurrences (parsed : parse text = .ok model) :
    model.occurrences.map Occurrence.name = (TokenStream.ofText text).names := by
  have names : model.declarations.flatMap Declaration.names = (TokenStream.ofText text).names :=
    names_readFrom (declarations_of_parse parsed).1
  rw [occurrences_eq parsed, List.map_flatMap, ← names]
  simp only [Declaration.map_name_occurrences]

theorem nodup_occurrences (parsed : parse text = .ok model) : model.occurrences.Nodup := by
  have names : (model.occurrences.map Occurrence.name).Nodup := by
    have sorted := starts_names parsed
    rw [names_readFrom (declarations_of_parse parsed).1] at sorted
    rw [map_name_occurrences parsed]
    exact (nodup_of_startsBefore sorted).of_map
  exact names.of_map

end Model

theorem locating_exact {text : String} {model : Model} (parsed : Model.parse text = .ok model) :
    model.occurrences.map Occurrence.name = (TokenStream.ofText text).names ∧
      (model.occurrences.map Occurrence.name).Pairwise Name.EndsBefore ∧
      model.occurrences.Nodup ∧
      (∀ occurrence, occurrence ∈ model.occurrences ↔ model.Mentions occurrence) ∧
      model.occurrences.length =
        model.machine.toList.length + model.states.length + 3 * model.transitions.length ∧
      ∀ offset,
        let here (occurrence : Occurrence) :=
          occurrence.name.span.start ≤ offset ∧ offset ≤ occurrence.name.span.stop
        (∀ a b, model.Mentions a → model.Mentions b → here a → here b → a = b) ∧
        (∀ occurrence, model.symbolAt? offset = some occurrence ↔
          model.Mentions occurrence ∧ here occurrence) ∧
        (model.symbolAt? offset = none ↔
          ∀ occurrence, model.Mentions occurrence → ¬here occurrence) := by
  have names := Model.map_name_occurrences parsed
  refine ⟨names, ?_, Model.nodup_occurrences parsed,
    fun _ => Model.mem_occurrences_iff_mentions, model.length_occurrences, fun offset => ?_⟩
  · rw [names]
    exact TokenStream.pairwise_names 0 text.toList
  intro here
  have found : ∀ occurrence, model.symbolAt? offset = some occurrence ↔
      model.Mentions occurrence ∧ here occurrence := by
    intro occurrence
    rw [Model.symbolAt?_eq_some_iff parsed, ← Model.mem_occurrences,
      Model.mem_occurrences_iff_mentions]
    simp [here, Span.touches]
  refine ⟨fun a b first second touched also => ?_, found, ?_⟩
  · have leads := (found a).2 ⟨first, touched⟩
    have other := (found b).2 ⟨second, also⟩
    exact Option.some.inj (leads.symm.trans other)
  · rw [Option.eq_none_iff_forall_ne_some]
    refine forall_congr' fun occurrence => ?_
    rw [Ne, found, not_and]

theorem locating_exact_behind_source :
    let text := "state B transition t from A to B state A"
    ∃ model, Model.parse text = .ok model ∧
      model.occurrences.map (fun occurrence => occurrence.name.text) =
        ["B", "t", "A", "B", "A"] ∧
      model.symbolAt? 27 = some ⟨.state, ⟨"A", ⟨26, 27⟩⟩, false⟩ ∧ model.symbolAt? 28 = none := by
  intro text
  let loop : TransitionDecl :=
    ⟨⟨"t", ⟨19, 20⟩⟩, ⟨"A", ⟨26, 27⟩⟩, ⟨"B", ⟨31, 32⟩⟩, none, ⟨8, 33⟩⟩
  let model : Model := ⟨none, [⟨⟨"B", ⟨6, 7⟩⟩, false, ⟨0, 8⟩⟩,
    ⟨⟨"A", ⟨39, 40⟩⟩, false, ⟨33, 40⟩⟩], [loop]⟩
  have declared : loop ∈ model.transitions := List.mem_singleton.2 rfl
  have parsed : Model.parse text = .ok model := by decide +kernel
  obtain ⟨names, -, -, -, -, leads⟩ := locating_exact parsed
  have cut : (TokenStream.ofText text).names.map Name.text = ["B", "t", "A", "B", "A"] := by
    decide +kernel
  refine ⟨model, parsed, ?_, ((leads 27).2.1 _).2 ⟨.source declared, ?_⟩,
    (leads 28).2.2.2 ?_⟩
  · rw [← cut, ← names, List.map_map]
    rfl
  · exact ⟨Nat.le_succ 26, Nat.le_refl 27⟩
  · intro occurrence mentioned
    cases mentioned with
    | machine declared => cases declared
    | state declared =>
      simp only [model, List.mem_cons, List.not_mem_nil, or_false] at declared
      rcases declared with rfl | rfl <;> decide
    | transition declared | source declared | target declared =>
      obtain rfl := List.mem_singleton.1 declared
      decide

end FsmWorkbench
