import FsmWorkbench.Proofs.Notation.Stacking

set_option autoImplicit false

namespace FsmWorkbench

namespace Declaration

def kind : Declaration → SymbolKind
  | .machine _ => .machine
  | .state _ => .state
  | .transition _ => .transition

def name : Declaration → Name
  | .machine decl => decl.name
  | .state decl => decl.name
  | .transition decl => decl.name

def occurrences : Declaration → List Occurrence
  | .machine decl => [⟨.machine, decl.name, true⟩]
  | .state decl => [⟨.state, decl.name, true⟩]
  | .transition decl => decl.occurrences

theorem map_name_occurrences (decl : Declaration) :
    decl.occurrences.map Occurrence.name = decl.names := by
  cases decl <;> rfl

theorem name_mem_names (decl : Declaration) : decl.name ∈ decl.names := by
  cases decl <;> exact List.mem_cons_self

theorem eq_of_mem_occurrences {decl : Declaration} {occurrence : Occurrence}
    (member : occurrence ∈ decl.occurrences) (defines : occurrence.definition = true) :
    occurrence = ⟨decl.kind, decl.name, true⟩ := by
  cases decl with
  | machine | state => exact List.mem_singleton.1 member
  | transition decl =>
    rcases List.mem_cons.1 member with rfl | ending
    · rfl
    · obtain ⟨endpoint, -, rfl⟩ := List.mem_map.1 ending
      cases defines

-- Only states are named without being declared there.
theorem kind_of_mem_occurrences {decl : Declaration} {occurrence : Occurrence}
    (member : occurrence ∈ decl.occurrences) (uses : occurrence.definition = false) :
    occurrence.kind = .state := by
  cases decl with
  | machine | state =>
    obtain rfl := List.mem_singleton.1 member
    cases uses
  | transition decl =>
    rcases List.mem_cons.1 member with rfl | ending
    · cases uses
    · obtain ⟨endpoint, -, rfl⟩ := List.mem_map.1 ending
      rfl

theorem mem_occurrences (decl : Declaration) :
    ⟨decl.kind, decl.name, true⟩ ∈ decl.occurrences := by
  cases decl <;> exact List.mem_cons_self

end Declaration

namespace Model

variable {text : String} {model : Model}

theorem names_perm (model : Model) :
    model.names.Perm (model.declarations.flatMap Declaration.occurrences) := by
  have sorted := List.mergeSort_perm (model.states.map Declaration.state ++
    model.transitions.map Declaration.transition) Declaration.le
  refine .trans ?_ ((sorted.append_left _).flatMap_right _).symm
  have states : (model.states.map Declaration.state).flatMap Declaration.occurrences =
      model.states.map fun state => ⟨.state, state.name, true⟩ := by
    rw [List.flatMap_map]
    exact List.flatMap_pure_eq_map ..
  have transitions : (model.transitions.map Declaration.transition).flatMap
      Declaration.occurrences = model.transitions.flatMap TransitionDecl.occurrences :=
    List.flatMap_map ..
  rw [List.flatMap_append, List.flatMap_append, states, transitions, names, List.append_assoc]
  cases model.machine <;> exact .refl _

theorem mem_names_iff {occurrence : Occurrence} :
    occurrence ∈ model.names ↔ ∃ decl ∈ model.declarations, occurrence ∈ decl.occurrences := by
  rw [model.names_perm.mem_iff, List.mem_flatMap]

theorem mem_names_of_mem_declarations {decl : Declaration} (member : decl ∈ model.declarations) :
    ⟨decl.kind, decl.name, true⟩ ∈ model.names :=
  mem_names_iff.2 ⟨decl, member, decl.mem_occurrences⟩

theorem starts_names (parsed : parse text = .ok model) :
    ((model.declarations.flatMap Declaration.names).map Name.span).Pairwise StartsBefore := by
  rw [names_readFrom (declarations_of_parse parsed).1]
  exact (List.pairwise_cons.1 (startsBefore_of_parse parsed)).2

theorem eq_of_name_eq (parsed : parse text = .ok model) {a b : Occurrence}
    (first : a ∈ model.names) (second : b ∈ model.names) (same : a.name = b.name) : a = b := by
  have nodup : (model.names.map Occurrence.name).Nodup := by
    rw [(model.names_perm.map _).nodup_iff, List.map_flatMap]
    simp only [Declaration.map_name_occurrences]
    exact (nodup_of_startsBefore (starts_names parsed)).of_map
  exact List.inj_on_of_nodup_map nodup first second same

theorem symbolAt?_eq_some_iff (parsed : parse text = .ok model) {offset : Nat}
    {occurrence : Occurrence} :
    model.symbolAt? offset = some occurrence ↔
      occurrence ∈ model.names ∧ occurrence.name.span.touches offset = true := by
  refine ⟨symbolAt?_eq_some, fun ⟨member, touched⟩ => ?_⟩
  cases found : model.symbolAt? offset with
  | none =>
    have missed := List.find?_eq_none.1 found occurrence (mem_occurrences.2 member)
    exact absurd touched missed
  | some other =>
    obtain ⟨listed, also⟩ := symbolAt?_eq_some found
    have same := eq_of_touches parsed (List.mem_map_of_mem listed) (List.mem_map_of_mem member)
      also touched
    rw [eq_of_name_eq parsed listed member same]

def declaration? (model : Model) (kind : SymbolKind) (name : String) : Option Declaration :=
  model.declarations.find? fun decl => decl.kind == kind && decl.name.text == name

structure FirstOf (model : Model) (kind : SymbolKind) (name : String) (decl : Declaration) :
    Prop where
  member : decl ∈ model.declarations
  same : decl.kind = kind
  named : decl.name.text = name
  before : ∀ other ∈ model.declarations, other.kind = kind → other.name.text = name →
    decl.name.span.start ≤ other.name.span.start

def Declared (model : Model) (kind : SymbolKind) (name : String) : Prop :=
  ∃ decl ∈ model.declarations, decl.kind = kind ∧ decl.name.text = name

section Lookup

variable {kind : SymbolKind} {name : String} {decl : Declaration}

theorem starts_declarations (parsed : parse text = .ok model) :
    model.declarations.Pairwise fun a b => a.name.span.start < b.name.span.start := by
  have names := List.pairwise_map.1 (starts_names parsed)
  refine (List.pairwise_flatMap.1 names).2.imp fun {a b} before => ?_
  exact before _ a.name_mem_names _ b.name_mem_names

theorem FirstOf.unique (parsed : parse text = .ok model) {other : Declaration}
    (first : model.FirstOf kind name decl) (second : model.FirstOf kind name other) :
    decl = other := by
  have distinct : (model.declarations.map fun decl => decl.name.span.start).Nodup :=
    List.pairwise_map.2 ((starts_declarations parsed).imp Nat.ne_of_lt)
  exact List.inj_on_of_nodup_map distinct first.member second.member <| Nat.le_antisymm
    (first.before other second.member second.same second.named)
    (second.before decl first.member first.same first.named)

theorem FirstOf.declared (first : model.FirstOf kind name decl) : model.Declared kind name :=
  ⟨decl, first.member, first.same, first.named⟩

theorem declaration?_eq_none_iff : model.declaration? kind name = none ↔
    ¬model.Declared kind name := by
  simp [declaration?, Declared]

theorem firstOf_of_declaration? (parsed : parse text = .ok model)
    (found : model.declaration? kind name = some decl) : model.FirstOf kind name decl := by
  have fits := List.find?_some found
  simp only [Bool.and_eq_true, beq_iff_eq] at fits
  refine ⟨List.mem_of_find?_eq_some found, fits.1, fits.2, fun other member same named => ?_⟩
  obtain ⟨-, front, rest, split, passed⟩ := List.find?_eq_some_iff_append.1 found
  have starts := starts_declarations parsed
  rw [split] at member starts
  rcases List.mem_append.1 member with earlier | later
  · simpa [same, named] using passed other earlier
  · rcases List.mem_cons.1 later with rfl | later
    · exact Nat.le_refl _
    · exact Nat.le_of_lt ((List.pairwise_cons.1 (List.pairwise_append.1 starts).2.1).1 other later)

theorem exists_firstOf (parsed : parse text = .ok model) (declared : model.Declared kind name) :
    ∃ decl, model.FirstOf kind name decl := by
  cases found : model.declaration? kind name with
  | none => exact absurd declared (declaration?_eq_none_iff.1 found)
  | some decl => exact ⟨decl, firstOf_of_declaration? parsed found⟩

theorem declaration?_eq_some_iff (parsed : parse text = .ok model) :
    model.declaration? kind name = some decl ↔ model.FirstOf kind name decl := by
  refine ⟨firstOf_of_declaration? parsed, fun first => ?_⟩
  cases found : model.declaration? kind name with
  | none => exact absurd first.declared (declaration?_eq_none_iff.1 found)
  | some other => rw [(firstOf_of_declaration? parsed found).unique parsed first]

theorem firstOf_head (parsed : parse text = .ok model) {rest : List Declaration}
    (declared : model.declarations = decl :: rest) :
    model.FirstOf decl.kind decl.name.text decl := by
  rw [← declaration?_eq_some_iff parsed, declaration?, declared]
  exact List.find?_cons_of_pos (by simp)

end Lookup

theorem state?_eq (parsed : parse text = .ok model) (name : String) :
    model.state? name = (model.declaration? .state name).bind Declaration.state? := by
  have made := congrArg Model.states (readAll_of_parse parsed).2
  rw [state?, ← made, ofDeclarations, List.find?_filterMap, declaration?]
  congr 2
  funext decl
  cases decl <;> rfl

theorem transition?_eq (parsed : parse text = .ok model) (name : String) :
    model.transition? name =
      (model.declaration? .transition name).bind Declaration.transition? := by
  have made := congrArg Model.transitions (readAll_of_parse parsed).2
  rw [transition?, ← made, ofDeclarations, List.find?_filterMap, declaration?]
  congr 2
  funext decl
  cases decl <;> rfl

theorem declaration?_machine (model : Model) (name : String) :
    model.declaration? .machine name =
      (model.machine.filter fun machine => machine.name.text == name).map Declaration.machine := by
  have others : ((model.states.map Declaration.state ++
      model.transitions.map Declaration.transition).mergeSort Declaration.le).find?
        (fun decl => decl.kind == .machine && decl.name.text == name) = none := by
    rw [List.find?_eq_none]
    intro decl member
    rcases List.mem_append.1 (List.mem_mergeSort.1 member) with listed | listed <;>
      obtain ⟨_, -, rfl⟩ := List.mem_map.1 listed <;> simp [Declaration.kind]
  rw [declaration?, declarations, List.find?_append, others, Option.or_none]
  cases model.machine with
  | none => rfl
  | some machine =>
    by_cases same : machine.name.text = name <;> simp [Declaration.kind, Declaration.name, same]

theorem definition?_eq (parsed : parse text = .ok model) (kind : SymbolKind) (name : String) :
    model.definition? kind name = (model.declaration? kind name).map Declaration.name := by
  cases kind with
  | machine =>
    rw [definition?, declaration?_machine]
    cases model.machine with
    | none => rfl
    | some machine =>
      by_cases same : machine.name.text = name <;> simp [Option.filter, Declaration.name, same]
  | state =>
    rw [definition?, state?_eq parsed]
    cases found : model.declaration? .state name with
    | none => rfl
    | some decl =>
      have same := (firstOf_of_declaration? parsed found).same
      cases decl with
      | state => rfl
      | machine | transition => cases same
  | transition =>
    rw [definition?, transition?_eq parsed]
    cases found : model.declaration? .transition name with
    | none => rfl
    | some decl =>
      have same := (firstOf_of_declaration? parsed found).same
      cases decl with
      | transition => rfl
      | machine | state => cases same

end Model

end FsmWorkbench
