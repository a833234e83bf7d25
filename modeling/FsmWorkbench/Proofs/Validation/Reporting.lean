import FsmWorkbench.Model.Description
import FsmWorkbench.Proofs.Notation.Moving
import FsmWorkbench.Proofs.Validation.Subjects

set_option autoImplicit false

namespace FsmWorkbench

variable {move : Span → Span}

def Issue.moved (move : Span → Span) (issue : Issue) : Issue :=
  ⟨issue.problem, move issue.span⟩

theorem Issue.map_moved_id (issues : List Issue) : issues.map (moved id) = issues :=
  List.map_id issues

theorem repeated_moved (seen : List String) (names : List Name) :
    repeated seen (names.map (Name.moved move)) = (repeated seen names).map (Name.moved move) := by
  induction names generalizing seen with
  | nil => rfl
  | cons name names ih =>
    rw [List.map_cons, repeated, repeated, ih, ih]
    split <;> simp_all [Name.moved]

-- Each rule gives an issue for each of its names, and the problem depends on the name's text.
theorem map_moved (problem : String → Problem) (names : List Name) :
    (names.map (Name.moved move)).map (fun name => (⟨problem name.text, name.span⟩ : Issue)) =
      (names.map fun name => ⟨problem name.text, name.span⟩).map (Issue.moved move) := by
  rw [List.map_map, List.map_map]
  rfl

theorem Issue.le_moved {spans : List Span} (steady : Steady move spans) {a b : Issue}
    (first : a.span ∈ ⟨0, 0⟩ :: spans) (second : b.span ∈ ⟨0, 0⟩ :: spans) :
    a.le b = (a.moved move).le (b.moved move) := by
  -- The order holds both ways, so ties stay ties and the codes decide them as before.
  have forth := steady.order _ first _ second
  have back := steady.order _ second _ first
  have later : (move a.span).start < (move b.span).start ↔ a.span.start < b.span.start := by omega
  have tied : (move a.span).start = (move b.span).start ↔ a.span.start = b.span.start := by omega
  rw [Bool.eq_iff_iff, le_iff, le_iff]
  simp only [moved, later, tied]
  rfl

theorem Issue.arrange_moved {spans : List Span} (steady : Steady move spans) {issues : List Issue}
    (placed : ∀ issue ∈ issues, issue.span ∈ ⟨0, 0⟩ :: spans) :
    arrange (issues.map (moved move)) = (arrange issues).map (moved move) := by
  rw [arrange, arrange, List.map_mergeSort (s := le)]
  exact fun a first b second => le_moved steady (placed a first) (placed b second)

theorem Json.ofOption_map {α β : Type} (encode : β → Json) (change : α → β) (value : Option α) :
    ofOption encode (value.map change) = ofOption (encode ∘ change) value := by
  cases value <;> rfl

namespace Model

section Texts

variable (model : Model)

theorem initialStates_moved :
    (model.moved move).initialStates = model.initialStates.map (StateDecl.moved move) := by
  simp only [initialStates, moved, List.filter_map]
  rfl

theorem declares_moved (name : String) :
    (model.moved move).declares name = model.declares name := by
  simp only [declares, moved, List.any_map]
  rfl

theorem edges_moved : (model.moved move).edges = model.edges := by
  simp only [edges, moved, List.map_map]
  rfl

theorem reachable_moved : (model.moved move).reachable = model.reachable := by
  simp only [reachable, edges_moved, initialStates_moved, List.map_map]
  rfl

theorem duplicateStates_moved :
    (model.moved move).duplicateStates = model.duplicateStates.map (Issue.moved move) := by
  have names : (model.moved move).states.map StateDecl.name =
      (model.states.map StateDecl.name).map (Name.moved move) := by
    simp only [moved, List.map_map]
    rfl
  rw [duplicateStates, names, repeated_moved]
  exact map_moved .duplicateState _

theorem duplicateTransitions_moved :
    (model.moved move).duplicateTransitions =
      model.duplicateTransitions.map (Issue.moved move) := by
  have names : (model.moved move).transitions.map TransitionDecl.name =
      (model.transitions.map TransitionDecl.name).map (Name.moved move) := by
    simp only [moved, List.map_map]
    rfl
  rw [duplicateTransitions, names, repeated_moved]
  exact map_moved .duplicateTransition _

theorem undefinedStates_moved :
    (model.moved move).undefinedStates = model.undefinedStates.map (Issue.moved move) := by
  have names : (model.moved move).transitions.flatMap TransitionDecl.endpoints =
      (model.transitions.flatMap TransitionDecl.endpoints).map (Name.moved move) := by
    simp only [moved, List.flatMap_map, List.map_flatMap]
    rfl
  simp only [undefinedStates, names, declares_moved, List.filter_map]
  exact map_moved .undefinedState _

theorem headline?_moved :
    (model.moved move).headline? = model.headline?.map (Name.moved move) := by
  cases named : model.machine with
  | none =>
    simp only [headline?, moved, named, Option.map_none, List.head?_map, Option.map_map]
    rfl
  | some machine => simp [headline?, moved, named, MachineDecl.moved]

theorem initialIssues_moved :
    (model.moved move).initialIssues = model.initialIssues.map (Issue.moved move) := by
  have states : (model.moved move).states = model.states.map (StateDecl.moved move) := rfl
  rw [initialIssues, initialIssues, initialStates_moved, headline?_moved, states]
  cases model.states with
  | nil => cases model.initialStates <;> simp [Issue.moved, StateDecl.moved, Name.moved]
  | cons state more =>
    cases model.initialStates with
    | nil => cases model.headline? <;> rfl
    | cons first extra => simp [Issue.moved, StateDecl.moved, Name.moved]

theorem missingMachine_moved (opening : move ⟨0, 0⟩ = ⟨0, 0⟩) :
    (model.moved move).missingMachine = model.missingMachine.map (Issue.moved move) := by
  cases named : model.machine <;> cases listed : model.states <;>
    simp [missingMachine, moved, named, listed, Issue.moved, opening]

theorem unreachableStates_moved :
    (model.moved move).unreachableStates = model.unreachableStates.map (Issue.moved move) := by
  simp only [unreachableStates, reachable_moved]
  split
  · rfl
  · simp only [moved, List.filter_map, List.map_map]
    rfl

theorem outgoing_moved (name : String) :
    (model.moved move).outgoing name = (model.outgoing name).map (TransitionDecl.moved move) := by
  simp only [outgoing, moved, List.filter_map]
  rfl

theorem describe_state_moved (state : StateDecl) :
    (state.moved move).describe (model.moved move) = state.describe model := by
  have leaving : (state.moved move).name.text = state.name.text := rfl
  rw [StateDecl.describe, StateDecl.describe, leaving, outgoing_moved, List.map_map]
  rfl

theorem describe_moved (info : LanguageInfo) :
    (model.moved move).describe info = model.describe info := by
  have states : (model.moved move).states.map (·.describe (model.moved move)) =
      model.states.map (·.describe model) := by
    rw [moved, List.map_map]
    exact List.map_congr_left fun state _ => model.describe_state_moved state
  have transitions : (model.moved move).transitions.map TransitionDecl.describe =
      model.transitions.map TransitionDecl.describe := by
    rw [moved, List.map_map]
    rfl
  have machine : (model.moved move).machine = model.machine.map (MachineDecl.moved move) := rfl
  rw [describe, states, transitions, machine, initialStates_moved, List.head?_map,
    Json.ofOption_map, Json.ofOption_map]
  rfl

end Texts

variable {model : Model}

def Places (model : Model) (issues : List Issue) : Prop :=
  ∀ issue ∈ issues, issue.span ∈ ⟨0, 0⟩ :: model.spans

theorem Concerns.span_mem {issue : Issue} (concerns : model.Concerns issue) :
    issue.span ∈ ⟨0, 0⟩ :: model.spans := by
  have listed {name : Name} (member : name ∈ model.names.map Occurrence.name) :
      name.span ∈ ⟨0, 0⟩ :: model.spans := by
    obtain ⟨occurrence, found, rfl⟩ := List.mem_map.1 member
    exact List.mem_cons_of_mem _ (List.mem_map_of_mem found)
  cases concerns with
  | name _ member => exact listed member
  | headline found => exact listed (name_mem_of_headline found)
  | opening => exact List.mem_cons_self

theorem places_of_concerns {issues : List Issue}
    (concerns : ∀ issue ∈ issues, model.Concerns issue) : model.Places issues :=
  fun issue member => (concerns issue member).span_mem

theorem Places.append {first second : List Issue} (placed : model.Places first)
    (also : model.Places second) : model.Places (first ++ second) := by
  intro issue member
  exact (List.mem_append.1 member).elim (placed issue) (also issue)

theorem places_coreIssues (model : Model) : model.Places model.coreIssues :=
  places_of_concerns concerns_coreIssues

theorem coreIssues_moved (steady : Steady move model.spans) :
    (model.moved move).coreIssues = model.coreIssues.map (Issue.moved move) := by
  rw [coreIssues, duplicateStates_moved, duplicateTransitions_moved, undefinedStates_moved,
    initialIssues_moved, ← List.map_append, ← List.map_append, ← List.map_append,
    Issue.arrange_moved steady fun issue member =>
      places_coreIssues model issue (Issue.mem_arrange.2 member), coreIssues]

theorem advise_moved (steady : Steady move model.spans) {issues : List Issue}
    (placed : model.Places issues) :
    (model.moved move).advise (issues.map (Issue.moved move)) =
      (model.advise issues).map (Issue.moved move) := by
  rw [advise, missingMachine_moved model steady.opening, unreachableStates_moved,
    ← List.map_append, ← List.map_append, advise]
  exact Issue.arrange_moved steady
    ((placed.append (places_of_concerns concerns_missingMachine)).append
      (places_of_concerns concerns_unreachableStates))

end Model

end FsmWorkbench
