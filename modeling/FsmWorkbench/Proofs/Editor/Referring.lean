import FsmWorkbench.Editor.Navigation
import FsmWorkbench.Proofs.Notation.Declaring
import FsmWorkbench.Proofs.Text.Indexing
import FsmWorkbench.Proofs.Text.Resolving

set_option autoImplicit false

namespace FsmWorkbench

open Text

namespace Text

def Position.Precedes (a b : Position) : Prop :=
  a.line < b.line ∨ a.line = b.line ∧ a.character < b.character

def Extent.Precedes (a b : Extent) : Prop :=
  a.start.Precedes b.start ∨ a.start = b.start ∧ a.stop.Precedes b.stop

namespace Position

variable {a b c : Position}

theorem le_iff : a.le b = true ↔ a = b ∨ a.Precedes b := by
  obtain ⟨line, character⟩ := a
  obtain ⟨line', character'⟩ := b
  simp only [le, Precedes, Bool.or_eq_true, Bool.and_eq_true, decide_eq_true_eq, beq_iff_eq,
    Position.mk.injEq, UInt32.lt_iff_toNat_lt, UInt32.le_iff_toNat_le, ← UInt32.toNat_inj]
  omega

theorem Precedes.trans (first : a.Precedes b) (second : b.Precedes c) : a.Precedes c := by
  simp only [Precedes, UInt32.lt_iff_toNat_lt, ← UInt32.toNat_inj] at *
  omega

theorem Precedes.irrefl : ¬a.Precedes a := by
  simp [Precedes]

theorem trichotomy (a b : Position) : a.Precedes b ∨ a = b ∨ b.Precedes a := by
  obtain ⟨line, character⟩ := a
  obtain ⟨line', character'⟩ := b
  simp only [Precedes, Position.mk.injEq, UInt32.lt_iff_toNat_lt, ← UInt32.toNat_inj]
  omega

end Position

namespace Extent

variable {a b c : Extent}

theorem le_iff : a.le b = true ↔ a = b ∨ a.Precedes b := by
  obtain ⟨start, stop⟩ := a
  obtain ⟨start', stop'⟩ := b
  simp only [le, Precedes, Extent.mk.injEq]
  split
  · next same =>
    subst same
    rw [Position.le_iff]
    simp [Position.Precedes.irrefl]
  · next different =>
    rw [Position.le_iff]
    simp [different]

theorem Precedes.trans (first : a.Precedes b) (second : b.Precedes c) : a.Precedes c := by
  rcases first with first | ⟨same, first⟩ <;> rcases second with second | ⟨again, second⟩
  · exact .inl (first.trans second)
  · exact .inl (again ▸ first)
  · exact .inl (same ▸ second)
  · exact .inr ⟨same.trans again, first.trans second⟩

theorem le_trans (a b c : Extent) : a.le b → b.le c → a.le c := by
  rw [le_iff, le_iff, le_iff]
  rintro (rfl | first) (rfl | second)
  · exact .inl rfl
  · exact .inr second
  · exact .inr first
  · exact .inr (first.trans second)

theorem le_total (a b : Extent) : (a.le b || b.le a) = true := by
  rw [Bool.or_eq_true, le_iff, le_iff]
  obtain ⟨start, stop⟩ := a
  obtain ⟨start', stop'⟩ := b
  simp only [Precedes, Extent.mk.injEq]
  rcases start.trichotomy start' with before | rfl | behind
  · exact .inl (.inr (.inl before))
  · rcases stop.trichotomy stop' with before | rfl | behind
    · exact .inl (.inr (.inr ⟨rfl, before⟩))
    · exact .inl (.inl ⟨rfl, rfl⟩)
    · exact .inr (.inr (.inr ⟨rfl, behind⟩))
  · exact .inr (.inr (.inl behind))

end Extent

end Text

section Runs

variable {α : Type} [BEq α] [LawfulBEq α] {xs : List α}

theorem mem_firstOfRuns_iff {x : α} : x ∈ firstOfRuns (· == ·) xs ↔ x ∈ xs := by
  refine ⟨mem_of_mem_firstOfRuns, fun member => ?_⟩
  induction xs with
  | nil => cases member
  | cons a rest ih =>
    rw [firstOfRuns]
    split
    · next runs =>
      rw [runs] at ih
      rcases List.mem_cons.1 member with rfl | later
      · exact List.mem_singleton_self _
      · cases ih later
    · next b more runs =>
      rw [runs] at ih
      split
      · next same =>
        obtain rfl := beq_iff_eq.1 same
        rcases List.mem_cons.1 member with rfl | later
        · exact List.mem_cons_self
        · exact ih later
      · rcases List.mem_cons.1 member with rfl | later
        · exact List.mem_cons_self
        · exact List.mem_cons_of_mem a (ih later)

theorem pairwise_firstOfRuns {r : α → α → Prop} (trans : ∀ {a b c}, r a b → r b c → r a c)
    (sorted : xs.Pairwise fun a b => a = b ∨ r a b) :
    (firstOfRuns (· == ·) xs).Pairwise r := by
  induction xs with
  | nil => exact .nil
  | cons a rest ih =>
    obtain ⟨below, sorted⟩ := List.pairwise_cons.1 sorted
    have apart := ih sorted
    rw [firstOfRuns]
    split
    · exact List.pairwise_singleton ..
    · next b more runs =>
      rw [runs] at apart
      split
      · next same => rwa [beq_iff_eq.1 same]
      · next differs =>
        have member : b ∈ rest := mem_of_mem_firstOfRuns (runs ▸ List.mem_cons_self)
        have first := (below b member).resolve_left (by simpa using differs)
        refine .cons (fun c later => ?_) apart
        rcases List.mem_cons.1 later with rfl | later
        · exact first
        · exact trans first ((List.pairwise_cons.1 apart).1 c later)

end Runs

def Name.Legible (name : Name) (cs : List Char) : Prop :=
  ∃ front rest, cs = front ++ rest ∧ size front = name.span.start ∧ Told front

theorem Name.Legible.offsetOf?_start {name : Name} {cs : List Char} (legible : name.Legible cs) :
    offsetOf? cs (extentOf cs name.span).start = some name.span.start := by
  obtain ⟨front, rest, rfl, start, told⟩ := legible
  rw [extentOf_ofText, ← start]
  exact (offsetOf?_positionOf_iff front rest).2 told

namespace Model

/-- All names of the model stand where 32 bits tell lines and columns. -/
def Legible (model : Model) (cs : List Char) : Prop :=
  ∀ name ∈ model.names.map Occurrence.name, name.Legible cs

/-- A name that uses what is declared elsewhere. -/
def Uses (model : Model) (kind : SymbolKind) (name : String) (used : Name) : Prop :=
  ⟨kind, used, false⟩ ∈ model.names ∧ used.text = name

/-- What is listed for a name: its uses, and if asked for the first declaration of it. -/
def Lists (model : Model) (kind : SymbolKind) (name : String) (declaration : Bool)
    (listed : Name) : Prop :=
  model.Uses kind name listed ∨
    declaration = true ∧ ∃ decl, model.FirstOf kind name decl ∧ decl.name = listed

variable {text : String} {model : Model} {position : Position} {occurrence : Occurrence}

theorem legible_of_parse (parsed : parse text = .ok model)
    (small : size text.toList < UInt32.size) : model.Legible text.toList := by
  intro name member
  obtain ⟨-, front, rest, split, span⟩ := standsIn_of_parse parsed member
  have whole := congrArg size split
  rw [size_append] at whole
  exact ⟨front, _, split, by simp [span], told_of_size (by omega)⟩

section Listed

variable {kind : SymbolKind} {name : String} {declaration : Bool} {listed : Name}

theorem mem_references_iff : listed ∈ model.references kind name ↔ model.Uses kind name listed := by
  simp only [references, List.mem_map, List.mem_filter, Bool.and_eq_true, beq_iff_eq,
    Bool.not_eq_true', Model.mem_occurrences, Uses]
  constructor
  · rintro ⟨⟨_, _, _⟩, ⟨member, ⟨rfl, rfl⟩, named⟩, rfl⟩
    exact ⟨member, named⟩
  · rintro ⟨member, named⟩
    exact ⟨_, ⟨member, ⟨rfl, rfl⟩, named⟩, rfl⟩

theorem definition?_eq_some_iff (parsed : parse text = .ok model) :
    model.definition? kind name = some listed ↔
      ∃ decl, model.FirstOf kind name decl ∧ decl.name = listed := by
  simp only [definition?_eq parsed, Option.map_eq_some_iff, declaration?_eq_some_iff parsed]

theorem Lists.mem_names (lists : model.Lists kind name declaration listed) :
    listed ∈ model.names.map Occurrence.name := by
  rcases lists with uses | ⟨-, decl, first, rfl⟩
  · exact List.mem_map_of_mem uses.1
  · exact List.mem_map_of_mem (mem_names_of_mem_declarations first.member)

end Listed

theorem symbolAtPosition?_start (parsed : parse text = .ok model)
    (member : occurrence ∈ model.names) (legible : occurrence.name.Legible text.toList) :
    model.symbolAtPosition? text.toList (extentOf text.toList occurrence.name.span).start =
      some occurrence := by
  have inside := (standsIn_of_parse parsed (List.mem_map_of_mem member)).start_le.2
  rw [symbolAtPosition?, LineIndex.offsetOf?_ofText, legible.offsetOf?_start, Option.bind_some,
    symbolAt?_eq_some_iff parsed]
  exact ⟨member, by simpa [Span.touches] using inside⟩

section Here

variable (parsed : parse text = .ok model)
  (here : model.symbolAtPosition? text.toList position = some occurrence)
include parsed here

theorem mem_referencesAt_iff {declaration : Bool} {extent : Extent} :
    extent ∈ model.referencesAt text.toList position declaration ↔
      ∃ found, model.Lists occurrence.kind occurrence.name.text declaration found ∧
        extent = extentOf text.toList found.span := by
  have declared (found : Name) : found ∈ (if declaration then
      (model.definition? occurrence.kind occurrence.name.text).toList else []) ↔
        declaration = true ∧ ∃ decl, model.FirstOf occurrence.kind occurrence.name.text decl ∧
          decl.name = found := by
    rw [← definition?_eq_some_iff parsed]
    cases declaration <;> simp
  rw [referencesAt, here]
  dsimp only
  rw [mem_firstOfRuns_iff, List.mem_mergeSort, List.mem_map]
  simp only [List.mem_append, mem_references_iff, declared, Lists, eq_comm]

omit parsed in
theorem pairwise_referencesAt (declaration : Bool) :
    (model.referencesAt text.toList position declaration).Pairwise Extent.Precedes := by
  rw [referencesAt, here]
  refine pairwise_firstOfRuns Extent.Precedes.trans ?_
  exact (List.pairwise_mergeSort Extent.le_trans Extent.le_total _).imp Extent.le_iff.1

theorem definitionAt?_eq : model.definitionAt? text.toList position =
    if occurrence.definition then some (extentOf text.toList occurrence.name.span)
    else (model.declaration? occurrence.kind occurrence.name.text).map fun decl =>
      extentOf text.toList decl.name.span := by
  rw [definitionAt?, here, Option.bind_some]
  dsimp only
  rw [definition?_eq parsed]
  split
  · rfl
  · rw [Option.map_map]
    rfl

end Here

theorem referencesAt_congr {other : Position} {found : Occurrence} {cs : List Char}
    (here : model.symbolAtPosition? cs position = some occurrence)
    (there : model.symbolAtPosition? cs other = some found) (same : found.kind = occurrence.kind)
    (reads : found.name.text = occurrence.name.text) (declaration : Bool) :
    model.referencesAt cs other declaration = model.referencesAt cs position declaration := by
  rw [referencesAt, referencesAt, here, there]
  dsimp only
  rw [same, reads]

theorem definitionAt?_start (parsed : parse text = .ok model) {kind : SymbolKind} {name : String}
    {declaration : Bool} {found : Name} (lists : model.Lists kind name declaration found)
    (legible : found.Legible text.toList) :
    model.definitionAt? text.toList (extentOf text.toList found.span).start =
      (model.declaration? kind name).map fun decl => extentOf text.toList decl.name.span := by
  rcases lists with ⟨member, rfl⟩ | ⟨-, decl, first, rfl⟩
  · rw [definitionAt?_eq parsed (symbolAtPosition?_start parsed member legible)]
    rfl
  · have member := mem_names_of_mem_declarations first.member
    rw [definitionAt?_eq parsed (symbolAtPosition?_start parsed member legible),
      (declaration?_eq_some_iff parsed).2 first]
    rfl

/-- The occurrence declares a name that has been declared before. -/
def Redeclares (model : Model) (occurrence : Occurrence) : Prop :=
  occurrence.definition = true ∧ ∃ decl ∈ model.declarations, decl.kind = occurrence.kind ∧
    decl.name.text = occurrence.name.text ∧ decl.name.span.start < occurrence.name.span.start

theorem lists_own_iff (parsed : parse text = .ok model) (member : occurrence ∈ model.names) :
    model.Lists occurrence.kind occurrence.name.text true occurrence.name ↔
      ¬model.Redeclares occurrence := by
  constructor
  · rintro (⟨used, -⟩ | ⟨-, first, firstOf, same⟩) ⟨defines, decl, declared, kind, reads, before⟩
    · rw [← eq_of_name_eq parsed used member rfl] at defines
      cases defines
    · have least := firstOf.before decl declared kind reads
      rw [same] at least
      omega
  · intro once
    obtain ⟨kind, name, definition⟩ := occurrence
    cases definition with
    | false => exact .inl ⟨member, rfl⟩
    | true =>
      obtain ⟨decl, declared, inside⟩ := mem_names_iff.1 member
      obtain ⟨rfl, rfl, -⟩ := Occurrence.mk.inj (Declaration.eq_of_mem_occurrences inside rfl)
      refine .inr ⟨rfl, decl, ⟨declared, rfl, rfl, fun other also same reads => ?_⟩, rfl⟩
      exact Nat.le_of_not_lt fun before => once ⟨rfl, other, also, same, reads, before⟩

theorem eq_of_start_eq (parsed : parse text = .ok model) (legible : model.Legible text.toList)
    {a b : Name} (first : a ∈ model.names.map Occurrence.name)
    (second : b ∈ model.names.map Occurrence.name)
    (same : (extentOf text.toList a.span).start = (extentOf text.toList b.span).start) :
    a = b := by
  obtain ⟨occurrence, member, rfl⟩ := List.mem_map.1 first
  obtain ⟨other, also, rfl⟩ := List.mem_map.1 second
  have here := symbolAtPosition?_start parsed member (legible _ first)
  rw [same, symbolAtPosition?_start parsed also (legible _ second)] at here
  rw [Option.some.inj here]

end Model

theorem referring_exact {text : String} {model : Model} (read : Model.parse text = .ok model)
    {position : Position} {occurrence : Occurrence}
    (here : model.symbolAtPosition? text.toList position = some occurrence) (declaration : Bool) :
    let cs := text.toList
    let kind := occurrence.kind
    let name := occurrence.name.text
    let extents := model.referencesAt cs position declaration
    let lists := model.Lists kind name declaration
    extents.Pairwise Extent.Precedes ∧
      (∀ extent, extent ∈ extents ↔ ∃ found, lists found ∧ extent = extentOf cs found.span) ∧
      (∀ other found, model.symbolAtPosition? cs other = some found → found.kind = kind →
        found.name.text = name → model.referencesAt cs other declaration = extents) ∧
      (∀ found, lists found → found.Legible cs →
        let start := (extentOf cs found.span).start
        (∀ decl, model.FirstOf kind name decl →
          model.definitionAt? cs start = some (extentOf cs decl.name.span)) ∧
        (¬model.Declared kind name → model.definitionAt? cs start = none)) ∧
      (model.Legible cs → (extents.map Extent.start).Pairwise Position.Precedes ∧
        ∀ extent ∈ extents, ∃! found, lists found ∧ extent = extentOf cs found.span) ∧
      (size cs < UInt32.size → model.Legible cs) := by
  intro cs kind name extents lists
  have mem {extent : Extent} : extent ∈ extents ↔
      ∃ found, lists found ∧ extent = extentOf cs found.span := Model.mem_referencesAt_iff read here
  have sorted : extents.Pairwise Extent.Precedes := Model.pairwise_referencesAt here declaration
  refine ⟨sorted, fun _ => mem, ?_, ?_, ?_, Model.legible_of_parse read⟩
  · intro other found there same reads
    exact Model.referencesAt_congr here there same reads declaration
  · intro found listed legible start
    have leads := Model.definitionAt?_start read listed legible
    constructor
    · intro decl first
      rw [leads, (Model.declaration?_eq_some_iff read).2 first]
      rfl
    · intro undeclared
      rw [leads, Model.declaration?_eq_none_iff.2 undeclared]
      rfl
  · intro legible
    have distinct {a b : Name} (first : lists a) (second : lists b)
        (same : (extentOf cs a.span).start = (extentOf cs b.span).start) : a = b :=
      Model.eq_of_start_eq read legible first.mem_names second.mem_names same
    constructor
    · rw [List.pairwise_map]
      refine sorted.imp_of_mem fun {a b} first second precedes => ?_
      obtain ⟨found, listed, rfl⟩ := mem.1 first
      obtain ⟨other, also, rfl⟩ := mem.1 second
      rcases precedes with before | ⟨same, stops⟩
      · exact before
      · rw [distinct listed also same] at stops
        exact absurd stops Position.Precedes.irrefl
    · intro extent member
      obtain ⟨found, listed, rfl⟩ := mem.1 member
      refine ⟨found, ⟨listed, rfl⟩, fun other ⟨also, same⟩ => ?_⟩
      exact distinct also listed (congrArg Extent.start same.symm)

theorem referring_exact_loop :
    let text := "state A state A\ntransition t from A to A"
    let cs := text.toList
    ∃ model occurrence, Model.parse text = .ok model ∧
      model.symbolAtPosition? cs ⟨1, 18⟩ = some occurrence ∧
      ⟨⟨1, 23⟩, ⟨1, 24⟩⟩ ∈ model.referencesAt cs ⟨1, 18⟩ true ∧
      (model.referencesAt cs ⟨1, 18⟩ true).Pairwise Extent.Precedes ∧
      model.definitionAt? cs ⟨1, 23⟩ = some ⟨⟨0, 6⟩, ⟨0, 7⟩⟩ := by
  intro text cs
  let first : StateDecl := ⟨⟨"A", ⟨6, 7⟩⟩, false, ⟨0, 8⟩⟩
  let second : StateDecl := ⟨⟨"A", ⟨14, 15⟩⟩, false, ⟨8, 16⟩⟩
  let near : Name := ⟨"A", ⟨34, 35⟩⟩
  let far : Name := ⟨"A", ⟨39, 40⟩⟩
  let model : Model := ⟨none, [first, second], [⟨⟨"t", ⟨27, 28⟩⟩, near, far, none, ⟨16, 40⟩⟩]⟩
  have read : Model.parse text = .ok model := by decide +kernel
  have uses (name : Name) (ending : name = near ∨ name = far) :
      ⟨.state, name, false⟩ ∈ model.names := by
    simp [model, Model.names, TransitionDecl.occurrences, TransitionDecl.endpoints, ending]
  have offset : offsetOf? cs ⟨1, 18⟩ = some 34 := by decide +kernel
  have here : model.symbolAtPosition? cs ⟨1, 18⟩ = some ⟨.state, near, false⟩ := by
    rw [Model.symbolAtPosition?, LineIndex.offsetOf?_ofText, offset, Option.bind_some,
      Model.symbolAt?_eq_some_iff read]
    exact ⟨uses near (.inl rfl), rfl⟩
  have declared : model.declarations = [.state first, .state second, .transition _] :=
    mergeSort_le_of_perm (by decide) (.refl _)
  have lists : model.Lists .state "A" true far := .inl ⟨uses far (.inr rfl), rfl⟩
  have declares : model.FirstOf .state "A" (.state first) := Model.firstOf_head read declared
  have extents : extentOf cs far.span = ⟨⟨1, 23⟩, ⟨1, 24⟩⟩ ∧
      extentOf cs first.name.span = ⟨⟨0, 6⟩, ⟨0, 7⟩⟩ := by decide +kernel
  obtain ⟨sorted, mem, -, leads, -, legible⟩ := referring_exact read here true
  have found := (leads far lists (legible (by decide +kernel) far lists.mem_names)).1 _ declares
  refine ⟨model, _, read, here, (mem _).2 ⟨far, lists, extents.1.symm⟩, sorted, ?_⟩
  rw [extents.1] at found
  exact found.trans (congrArg some extents.2)

theorem covering_iff {text : String} {model : Model} (read : Model.parse text = .ok model)
    {position : Position} {occurrence : Occurrence}
    (here : model.symbolAtPosition? text.toList position = some occurrence) :
    let cs := text.toList
    let extent := extentOf cs occurrence.name.span
    let extents := model.referencesAt cs position true
    (¬model.Redeclares occurrence → extent ∈ extents) ∧
      (model.Legible cs → (extent ∈ extents ↔ ¬model.Redeclares occurrence)) ∧
      (size cs < UInt32.size → model.Legible cs) := by
  intro cs extent extents
  obtain ⟨offset, -, touched⟩ := Option.bind_eq_some_iff.1 here
  have member := (Model.symbolAt?_eq_some touched).1
  have own := Model.lists_own_iff read member
  have covered (once : ¬model.Redeclares occurrence) : extent ∈ extents :=
    (Model.mem_referencesAt_iff read here).2 ⟨occurrence.name, own.2 once, rfl⟩
  refine ⟨covered, fun legible => ⟨fun listed => ?_, covered⟩, Model.legible_of_parse read⟩
  obtain ⟨found, lists, same⟩ := (Model.mem_referencesAt_iff read here).1 listed
  obtain rfl : occurrence.name = found := Model.eq_of_start_eq read legible
    (List.mem_map_of_mem member) lists.mem_names (congrArg Extent.start same)
  exact own.1 lists

theorem covering_iff_first :
    let cs := "state A state A".toList
    ∃ model occurrence, Model.parse "state A state A" = .ok model ∧
      model.symbolAtPosition? cs ⟨0, 6⟩ = some occurrence ∧
      extentOf cs occurrence.name.span ∈ model.referencesAt cs ⟨0, 6⟩ true ∧
      ¬model.Redeclares occurrence := by
  intro cs
  obtain ⟨model, same⟩ : ∃ model : Model, model =
      ⟨none, [⟨⟨"A", ⟨6, 7⟩⟩, false, ⟨0, 8⟩⟩, ⟨⟨"A", ⟨14, 15⟩⟩, false, ⟨8, 15⟩⟩], []⟩ := ⟨_, rfl⟩
  have read : Model.parse "state A state A" = .ok model := by
    rw [same]
    decide +kernel
  have here : model.symbolAtPosition? "state A state A".toList ⟨0, 6⟩ =
      some ⟨.state, ⟨"A", ⟨6, 7⟩⟩, true⟩ := by
    rw [same]
    cbv
  have listed : model.referencesAt "state A state A".toList ⟨0, 6⟩ true = [⟨⟨0, 6⟩, ⟨0, 7⟩⟩] := by
    rw [same]
    cbv
  have member : extentOf cs ⟨6, 7⟩ ∈ model.referencesAt cs ⟨0, 6⟩ true := by
    rw [listed]
    decide +kernel
  obtain ⟨-, covers, legible⟩ := covering_iff read here
  exact ⟨model, _, read, here, member, (covers (legible (by decide +kernel))).1 member⟩

-- The second declaration of a name leads to itself, but its list has the first in its place.
theorem referencesAt_second_declaration :
    let cs := "state A\nstate A".toList
    ∃ model occurrence, Model.parse "state A\nstate A" = .ok model ∧
      model.symbolAtPosition? cs ⟨1, 6⟩ = some occurrence ∧
      model.definitionAt? cs ⟨1, 6⟩ = some (extentOf cs occurrence.name.span) ∧
      extentOf cs occurrence.name.span ∉ model.referencesAt cs ⟨1, 6⟩ true := by
  have listed : Model.referencesAt ⟨none,
      [⟨⟨"A", ⟨6, 7⟩⟩, false, ⟨0, 8⟩⟩, ⟨⟨"A", ⟨14, 15⟩⟩, false, ⟨8, 15⟩⟩], []⟩
        "state A\nstate A".toList ⟨1, 6⟩ true = [⟨⟨0, 6⟩, ⟨0, 7⟩⟩] := by
    cbv
  refine ⟨⟨none, [⟨⟨"A", ⟨6, 7⟩⟩, false, ⟨0, 8⟩⟩, ⟨⟨"A", ⟨14, 15⟩⟩, false, ⟨8, 15⟩⟩], []⟩,
    ⟨.state, ⟨"A", ⟨14, 15⟩⟩, true⟩, by decide +kernel, by cbv, by cbv, ?_⟩
  rw [listed]
  decide +kernel

end FsmWorkbench
