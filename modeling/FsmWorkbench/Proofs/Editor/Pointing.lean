import FsmWorkbench.Proofs.Editor.Recollection
import FsmWorkbench.Proofs.Notation.Standing
import FsmWorkbench.Proofs.Text.Positions

set_option autoImplicit false

namespace FsmWorkbench

open Text

namespace Model

variable {model : Model} {cs : List Char} {position : Position} {extent : Extent}

theorem state_mem_names {state : StateDecl} (declared : state ∈ model.states) :
    ⟨.state, state.name, true⟩ ∈ model.names := by
  simp only [names, List.mem_append, List.mem_map]
  exact .inl (.inr ⟨state, declared, rfl⟩)

theorem transition_mem_names {transition : TransitionDecl}
    (declared : transition ∈ model.transitions) :
    ⟨.transition, transition.name, true⟩ ∈ model.names :=
  List.mem_append_right _ (List.mem_flatMap.2 ⟨transition, declared, List.mem_cons_self⟩)

theorem definition?_eq_some {kind : SymbolKind} {text : String} {name : Name}
    (found : model.definition? kind text = some name) :
    name ∈ model.names.map Occurrence.name ∧ name.text = text := by
  cases kind with
  | machine =>
    obtain ⟨named, same⟩ := Option.filter_eq_some_iff.1 found
    obtain ⟨machine, declared, rfl⟩ := Option.map_eq_some_iff.1 named
    exact ⟨by simp [names, declared], by simpa using same⟩
  | state =>
    obtain ⟨state, declared, rfl⟩ := Option.map_eq_some_iff.1 found
    have same := List.find?_some declared
    exact ⟨List.mem_map_of_mem (state_mem_names (List.mem_of_find?_eq_some declared)),
      by simpa using same⟩
  | transition =>
    obtain ⟨transition, declared, rfl⟩ := Option.map_eq_some_iff.1 found
    have same := List.find?_some declared
    exact ⟨List.mem_map_of_mem (transition_mem_names (List.mem_of_find?_eq_some declared)),
      by simpa using same⟩

theorem mem_references {kind : SymbolKind} {text : String} {name : Name}
    (used : name ∈ model.references kind text) :
    name ∈ model.names.map Occurrence.name ∧ name.text = text := by
  obtain ⟨occurrence, kept, rfl⟩ := List.mem_map.1 used
  obtain ⟨member, fits⟩ := List.mem_filter.1 kept
  simp only [Bool.and_eq_true, beq_iff_eq] at fits
  exact ⟨List.mem_map_of_mem (mem_occurrences.1 member), fits.2⟩

def Points (model : Model) (cs : List Char) (position : Position) (extent : Extent) : Prop :=
  ∃ occurrence, model.symbolAtPosition? cs position = some occurrence ∧
    ∃ name ∈ model.names.map Occurrence.name,
      name.text = occurrence.name.text ∧ extent = extentOf cs name.span

theorem points_of_hoverAt? {language : LanguageInfo} {offset : Nat} {info : HoverInfo}
    (here : offsetOf? cs position = some offset)
    (shown : hoverAt? language model offset = some info) :
    model.Points cs position (extentOf cs info.span) := by
  obtain ⟨occurrence, found, shown⟩ := Option.bind_eq_some_iff.1 shown
  obtain ⟨markdown, -, rfl⟩ := Option.map_eq_some_iff.1 shown
  have touched : model.symbolAtPosition? cs position = some occurrence := by
    rw [symbolAtPosition?, LineIndex.offsetOf?_ofText, here, Option.bind_some, found]
  exact ⟨occurrence, touched, occurrence.name, List.mem_map_of_mem (symbolAt?_eq_some found).1, rfl,
    rfl⟩

theorem points_of_definitionAt? (found : model.definitionAt? cs position = some extent) :
    model.Points cs position extent := by
  obtain ⟨occurrence, here, found⟩ := Option.bind_eq_some_iff.1 found
  obtain ⟨name, declared, rfl⟩ := Option.map_eq_some_iff.1 found
  refine ⟨occurrence, here, name, ?_⟩
  split at declared
  · obtain rfl := Option.some.inj declared
    obtain ⟨offset, -, touched⟩ := Option.bind_eq_some_iff.1 here
    exact ⟨List.mem_map_of_mem (symbolAt?_eq_some touched).1, rfl, rfl⟩
  · obtain ⟨member, same⟩ := definition?_eq_some declared
    exact ⟨member, same, rfl⟩

theorem points_of_mem_referencesAt {declaration : Bool}
    (member : extent ∈ model.referencesAt cs position declaration) :
    model.Points cs position extent := by
  rw [referencesAt] at member
  split at member
  · simp at member
  next occurrence here =>
  have member := List.mem_mergeSort.1 (mem_of_mem_firstOfRuns member)
  obtain ⟨name, found, rfl⟩ := List.mem_map.1 member
  have named : name ∈ model.names.map Occurrence.name ∧ name.text = occurrence.name.text := by
    rcases List.mem_append.1 found with used | declared
    · exact mem_references used
    · split at declared
      · exact definition?_eq_some (Option.mem_toList.1 declared)
      · simp at declared
  exact ⟨occurrence, here, name, named.1, named.2, rfl⟩

end Model

def NamedAt (text : String) (position : Position) (name : Name) : Prop :=
  ∃ model offset, Model.parse text = .ok model ∧ offsetOf? text.toList position = some offset ∧
    name ∈ model.names.map Occurrence.name ∧ name.span.touches offset = true

theorem NamedAt.unique {text : String} {position : Position} {a b : Name}
    (first : NamedAt text position a) (second : NamedAt text position b) : a = b := by
  obtain ⟨model, offset, parsed, here, member, touched⟩ := first
  obtain ⟨again, place, same, there, also, touches⟩ := second
  obtain rfl := Except.ok.inj (parsed.symm.trans same)
  obtain rfl := Option.some.inj (here.symm.trans there)
  exact Model.eq_of_touches parsed member also touched touches

def PointsIn (text : String) (position : Position) (extent : Extent) : Prop :=
  ∃ name, NamedAt text position name ∧ ∃ other : Name, other.StandsIn 0 text.toList ∧
    other.text = name.text ∧ extent = extentOf text.toList other.span

theorem Model.Points.pointsIn {text : String} {model : Model} {position : Position}
    {extent : Extent} (points : model.Points text.toList position extent)
    (parsed : Model.parse text = .ok model) : PointsIn text position extent := by
  obtain ⟨occurrence, found, other, member, same, rfl⟩ := points
  rw [Model.symbolAtPosition?, LineIndex.offsetOf?_ofText] at found
  obtain ⟨offset, here, found⟩ := Option.bind_eq_some_iff.1 found
  obtain ⟨listed, touched⟩ := Model.symbolAt?_eq_some found
  exact ⟨occurrence.name, ⟨model, offset, parsed, here, List.mem_map_of_mem listed, touched⟩,
    other, Model.standsIn_of_parse parsed member, same, rfl⟩

-- An offset that 32 bits do not hold is told by no position.
theorem marks_extentOf {cs : List Char} {name : Name} (stands : name.StandsIn 0 cs)
    (small : name.span.stop < UInt32.size) :
    Marks cs (extentOf cs name.span) name.text.toList := by
  obtain ⟨-, front, rest, rfl, span⟩ := stands
  rw [span] at small
  rw [extentOf_ofText, span]
  simp only [Nat.zero_add] at small ⊢
  exact marks_part rest small

def Request.place? : Request → Option (String × Position)
  | .hover uri position | .definition uri position | .references uri position _ =>
    some (uri, position)
  | _ => none

def Reply.places (uri : String) : Reply → List (String × Extent)
  | .hover found => [(uri, found.extent)]
  | .location other extent => [(other, extent)]
  | .locations other extents => extents.map fun extent => (other, extent)
  | _ => []

theorem eq_ok_of_toOption {ε α : Type} {result : Except ε α} {value : α}
    (found : result.toOption = some value) : result = .ok value := by
  cases result with
  | error => cases found
  | ok => exact congrArg _ (Option.some.inj found)

theorem pointsIn_of_hoverIn {text : String} {position : Position} {found : HoverReply}
    (shown : hoverIn text position = some found) : PointsIn text position found.extent := by
  obtain ⟨model, parsed, located⟩ := Option.bind_eq_some_iff.1 shown
  obtain ⟨offset, here, told⟩ := Option.bind_eq_some_iff.1 located
  obtain ⟨info, hovered, rfl⟩ := Option.map_eq_some_iff.1 told
  exact (Model.points_of_hoverAt? here hovered).pointsIn (eq_ok_of_toOption parsed)

theorem Session.Fresh.pointsIn_answer {session : Session} (fresh : session.Fresh)
    {history : List Request}
    (distinct : Set.InjOn session.documents.digest (storedTexts history))
    {uri : String} {position : Position} {document : Document} {request : Request}
    (opened : (session.run history).2.documents.get? uri = some document)
    (about : request.place? = some (uri, position)) {place : String × Extent}
    (shown : place ∈ ((session.run history).2.answer request).1.places uri) :
    place.1 = uri ∧ PointsIn document.text position place.2 := by
  have parsed {model : Model} (current : document.currentModel? = some model) :
      Model.parse document.text = .ok model :=
    (fresh.made_run opened).parsed.symm.trans (eq_ok_of_toOption current)
  have index := (fresh.made_run opened).index
  cases request with
  | hover uri position =>
    obtain ⟨rfl, rfl⟩ := Prod.mk.inj (Option.some.inj about)
    rw [fresh.answer_hover distinct, opened, Option.bind_some] at shown
    cases told : hoverIn document.text position with
    | none => simp [told, Reply.places] at shown
    | some found =>
      obtain rfl : place = (uri, found.extent) := by simpa [told, Reply.places] using shown
      exact ⟨rfl, pointsIn_of_hoverIn told⟩
  | definition uri position =>
    obtain ⟨rfl, rfl⟩ := Prod.mk.inj (Option.some.inj about)
    cases told : document.currentModel?.bind fun model =>
        model.definitionAt? document.index position with
    | none => simp [answer, opened, told, Reply.places] at shown
    | some extent =>
      obtain rfl : place = (uri, extent) := by
        simpa [answer, opened, told, Reply.places] using shown
      obtain ⟨model, current, found⟩ := Option.bind_eq_some_iff.1 told
      rw [index] at found
      exact ⟨rfl, (Model.points_of_definitionAt? found).pointsIn (parsed current)⟩
  | references uri position declaration =>
    obtain ⟨rfl, rfl⟩ := Prod.mk.inj (Option.some.inj about)
    cases current : document.currentModel? with
    | none => simp [answer, opened, current, Reply.places] at shown
    | some model =>
      obtain ⟨extent, member, rfl⟩ : ∃ extent ∈ model.referencesAt document.index position
          declaration, (uri, extent) = place := by
        simpa [answer, opened, current, Reply.places] using shown
      rw [index] at member
      exact ⟨rfl, (Model.points_of_mem_referencesAt member).pointsIn (parsed current)⟩
  | _ => cases about

theorem pointing_exact (digest : String → Digest) (history : List Request)
    (distinct : Set.InjOn digest (storedTexts history)) :
    ∃ session, Session.start = .ok session ∧
      let current := ((session.hashing digest).run history).2
      ∀ uri position document request, current.documents.get? uri = some document →
        request.place? = some (uri, position) →
          let places := (current.step request).1.places uri
          (∀ name, NamedAt document.text position name →
            IsIdentifier name.text ∧ (∀ other, NamedAt document.text position other → other = name) ∧
              ∀ place ∈ places, ∃ found : Name,
                found.text = name.text ∧ found.StandsIn 0 document.text.toList ∧
                place = (uri, extentOf document.text.toList found.span) ∧
                (found.span.stop < UInt32.size →
                  Marks document.text.toList place.2 name.text.toList)) ∧
          ((∀ name, ¬ NamedAt document.text position name) → places = []) := by
  obtain ⟨session, started, -, fresh⟩ := Session.exists_fresh
  refine ⟨session, started, ?_⟩
  intro current uri position document request opened about places
  have points (place) (shown : place ∈ places) :=
    (fresh digest).pointsIn_answer distinct opened about shown
  constructor
  · intro name here
    have ⟨model, offset, parsed, located, member, touched⟩ := here
    refine ⟨(Model.standsIn_of_parse parsed member).identifier, fun other there => there.unique here,
      fun place shown => ?_⟩
    obtain ⟨within, same, there, found, stands, reads, extent⟩ := points place shown
    obtain rfl := there.unique here
    refine ⟨found, reads, stands, Prod.ext within extent, fun small => ?_⟩
    rw [extent, ← reads]
    exact marks_extentOf stands small
  · intro nowhere
    rw [List.eq_nil_iff_forall_not_mem]
    intro place shown
    obtain ⟨name, here, -⟩ := (points place shown).2
    exact nowhere name here

theorem pointing_exact_moved :
    let history : List Request := [.didOpen "a" 1 "state A", .didChange "a" 2 ["\nstate A"]]
    Set.InjOn Digest.mk (storedTexts history) ∧
      ∃ session, Session.start = .ok session ∧
        let current := ((session.hashing Digest.mk).run history).2
        (current.step (.definition "a" ⟨1, 6⟩)).1.places "a" = [("a", ⟨⟨1, 6⟩, ⟨1, 7⟩⟩)] ∧
          Marks "\nstate A".toList ⟨⟨1, 6⟩, ⟨1, 7⟩⟩ ['A'] := by
  intro history
  have distinct : Set.InjOn Digest.mk (storedTexts history) := fun _ _ _ _ => Digest.mk.inj
  refine ⟨distinct, ?_⟩
  obtain ⟨session, started, points⟩ := pointing_exact Digest.mk history distinct
  refine ⟨session, started, ?_⟩
  intro current
  have opened : current.documents.get? "a" =
      some (.refresh .standard Digest.mk (some (.refresh .standard Digest.mk none "state A" 1))
        "\nstate A" 2) := by
    rw [(Session.fresh_of_start started _).documents_run]
    rfl
  have here : NamedAt "\nstate A" ⟨1, 6⟩ ⟨"A", ⟨7, 8⟩⟩ :=
    ⟨⟨none, [⟨⟨"A", ⟨7, 8⟩⟩, false, ⟨1, 8⟩⟩], []⟩, 7, by cbv, by cbv, by simp [Model.names], rfl⟩
  have replied : (current.answer (.definition "a" ⟨1, 6⟩)).1 =
      .location "a" ⟨⟨1, 6⟩, ⟨1, 7⟩⟩ := by
    rw [Session.answer, opened]
    cbv
  have answered : (current.step (.definition "a" ⟨1, 6⟩)).1.places "a" =
      [("a", ⟨⟨1, 6⟩, ⟨1, 7⟩⟩)] := by
    rw [Session.step, replied]
    rfl
  have listed : ("a", ⟨⟨1, 6⟩, ⟨1, 7⟩⟩) ∈ (current.step (.definition "a" ⟨1, 6⟩)).1.places "a" := by
    rw [answered]
    exact List.mem_singleton_self _
  obtain ⟨-, -, marked⟩ := (points _ _ _ (.definition "a" ⟨1, 6⟩) opened rfl).1 _ here
  obtain ⟨found, -, stands, -, marks⟩ := marked _ listed
  have bound := stands.stop_le
  refine ⟨answered, marks ?_⟩
  exact Nat.lt_of_le_of_lt bound (by decide)

end FsmWorkbench
