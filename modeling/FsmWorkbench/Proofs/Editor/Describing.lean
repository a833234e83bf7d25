import FsmWorkbench.Editor.Hover
import FsmWorkbench.Proofs.Editor.Referring
import FsmWorkbench.Proofs.Notation.Printing

set_option autoImplicit false

namespace FsmWorkbench

open Text

-- By the guard as an option, which is faster to unfold than the match on it.
theorem TransitionDecl.text_eq (decl : TransitionDecl) :
    decl.text = "transition " ++ decl.name.text ++ " from " ++ decl.source.text ++ " to " ++
      decl.target.text ++ (decl.guard.map fun guard => " when \"" ++ guard ++ "\"").getD "" := by
  obtain ⟨name, source, target, _ | guard, span⟩ := decl <;> rfl

namespace Declaration

def text : Declaration → String
  | .machine decl => decl.text
  | .state decl => decl.text
  | .transition decl => decl.text

def outline : Declaration → Outline
  | .machine decl => ⟨some decl.name.text, [], []⟩
  | .state decl => ⟨none, [decl.outline], []⟩
  | .transition decl => ⟨none, [], [decl.outline]⟩

def program : Declaration → Program
  | .machine decl => ⟨some decl.name.text, []⟩
  | .state decl => ⟨none, [.state decl.name.text decl.initial]⟩
  | .transition decl => ⟨none, [.transition decl.outline]⟩

theorem outline_program (decl : Declaration) : decl.program.outline = decl.outline := by
  cases decl <;> rfl

theorem program_eq_of_outline_eq {a b : Declaration} (same : a.outline = b.outline) :
    a.program = b.program := by
  cases a <;> cases b <;> simp_all [outline, program, StateDecl.outline]

theorem toList_text (decl : Declaration) : decl.text.toList = decl.program.line := by
  rcases decl with ⟨name, span⟩ | ⟨name, initial, span⟩ | ⟨name, source, target, guard, span⟩
  · simp [text, MachineDecl.text, program, Program.line, Program.lexemes, Lexeme.spelling,
      Keyword.text]
  · cases initial <;> simp [text, StateDecl.text, program, Program.line, Program.lexemes,
      Item.lexemes, Lexeme.spelling, Keyword.text]
  · cases guard <;> simp [text, TransitionDecl.text_eq, TransitionDecl.outline, program,
      Program.line, Program.lexemes, Item.lexemes, Lexeme.spelling, Keyword.text]

theorem exists_declarations_eq {decl : Declaration} {one : Model}
    (same : one.outline = decl.outline) :
    ∃ found, one.declarations = [found] ∧ found.outline = decl.outline := by
  obtain ⟨machine, states, transitions⟩ := one
  cases decl with
  | machine decl =>
    obtain ⟨⟨found, rfl, named⟩, rfl, rfl⟩ : (∃ found, machine = some found ∧
        found.name.text = decl.name.text) ∧ states = [] ∧ transitions = [] := by
      simpa [Model.outline, outline] using same
    exact ⟨.machine found, by simp [Model.declarations], by simp [outline, named]⟩
  | state decl =>
    obtain ⟨rfl, ⟨found, rfl, said⟩, rfl⟩ : machine = none ∧ (∃ found, states = [found] ∧
        found.outline = decl.outline) ∧ transitions = [] := by
      simpa [Model.outline, outline] using same
    exact ⟨.state found, by simp [Model.declarations], by simp [outline, said]⟩
  | transition decl =>
    obtain ⟨rfl, rfl, found, rfl, said⟩ : machine = none ∧ states = [] ∧
        ∃ found, transitions = [found] ∧ found.outline = decl.outline := by
      simpa [Model.outline, outline] using same
    exact ⟨.transition found, by simp [Model.declarations], by simp [outline, said]⟩

end Declaration

namespace Program

variable {program : Program}

theorem lexemes_item_subset {item : Item} (member : item ∈ program.items) :
    item.lexemes ⊆ program.lexemes :=
  fun _ written => List.mem_append_right _ (List.mem_flatMap.2 ⟨item, member, written⟩)

theorem state_mem_items {name : String} {initial : Bool}
    (said : (name, initial) ∈ program.outline.states) : .state name initial ∈ program.items := by
  obtain ⟨item, member, same⟩ := List.mem_filterMap.1 said
  cases item with
  | state =>
    obtain ⟨rfl, rfl⟩ := Prod.mk.inj (Option.some.inj same)
    exact member
  | transition => cases same

theorem transition_mem_items {outline : TransitionOutline}
    (said : outline ∈ program.outline.transitions) : .transition outline ∈ program.items := by
  obtain ⟨item, member, same⟩ := List.mem_filterMap.1 said
  cases item with
  | state => cases same
  | transition =>
    obtain rfl := Option.some.inj same
    exact member

end Program

namespace Model

variable {text : String} {model : Model}

theorem lexemes_program_subset {program : Program} (same : program.outline = model.outline)
    {decl : Declaration} (member : decl ∈ model.declarations) :
    decl.program.lexemes ⊆ program.lexemes := by
  rcases List.mem_append.1 member with first | sorted
  · obtain ⟨machine, found, rfl⟩ := Option.map_eq_some_iff.1 (Option.mem_toList.1 first)
    have named : program.machine = some machine.name.text := by
      simpa [Program.outline, Model.outline, found] using congrArg Outline.machine same
    simp [Declaration.program, Program.lexemes, named]
  · rcases List.mem_append.1 (List.mem_mergeSort.1 sorted) with listed | listed
    · obtain ⟨state, declared, rfl⟩ := List.mem_map.1 listed
      have said : state.outline ∈ program.outline.states := by
        rw [same]
        exact List.mem_map_of_mem declared
      simpa [Declaration.program, Program.lexemes] using
        Program.lexemes_item_subset (Program.state_mem_items said)
    · obtain ⟨transition, declared, rfl⟩ := List.mem_map.1 listed
      have said : transition.outline ∈ program.outline.transitions := by
        rw [same]
        exact List.mem_map_of_mem declared
      simpa [Declaration.program, Program.lexemes] using
        Program.lexemes_item_subset (Program.transition_mem_items said)

theorem writable_program (parsed : parse text = .ok model) {decl : Declaration}
    (member : decl ∈ model.declarations) : decl.program.Writable := by
  obtain ⟨pieces, cut, program, lexemes, same⟩ := parse_outline_iff.1 ⟨model, parsed, rfl⟩
  intro lexeme written
  refine cut.writable lexeme ?_
  rw [lexemes]
  exact lexemes_program_subset same member written

theorem parse_text (parsed : parse text = .ok model) {decl : Declaration}
    (member : decl ∈ model.declarations) :
    ∃ one found, parse decl.text = .ok one ∧ one.declarations = [found] ∧
      found.outline = decl.outline := by
  obtain ⟨one, read, same⟩ := Program.parse_line (writable_program parsed member)
  rw [decl.outline_program] at same
  rw [← decl.toList_text, String.ofList_toList] at read
  obtain ⟨found, only, said⟩ := Declaration.exists_declarations_eq same
  exact ⟨one, found, read, only, said⟩

theorem newline_not_mem_text (parsed : parse text = .ok model) {decl : Declaration}
    (member : decl ∈ model.declarations) : '\n' ∉ decl.text.toList := by
  rw [decl.toList_text]
  exact newline_not_mem_spaced (writable_program parsed member)

theorem text_eq_iff (parsed : parse text = .ok model) {decl other : Declaration}
    (member : decl ∈ model.declarations) (also : other ∈ model.declarations) :
    decl.text = other.text ↔ decl.outline = other.outline := by
  constructor
  · intro same
    obtain ⟨one, found, read, only, said⟩ := parse_text parsed member
    obtain ⟨two, there, again, alone, told⟩ := parse_text parsed also
    rw [same, again] at read
    cases read
    rw [only] at alone
    cases alone
    exact said.symm.trans told
  · intro same
    rw [← String.toList_inj, decl.toList_text, other.toList_text,
      Declaration.program_eq_of_outline_eq same]

end Model

namespace Hover

def fences (line : List Char) : Bool :=
  "```".toList.isPrefixOf line

-- The lines of the block of code that a hover starts with: from behind its opening fence up to the
-- next fence.
def fenced? (language : LanguageInfo) (markdown : String) : Option (List (List Char)) :=
  (("```" ++ language.languageId ++ "\n").toList.isPrefixOf? markdown.toList).bind fun body =>
    let lines := body.splitOn '\n'
    if lines.any fences then some (lines.takeWhile fun line => !fences line) else none

variable {language : LanguageInfo}

theorem fenced?_codeBlock {line : String} (inside : '\n' ∉ line.toList)
    (plain : fences line.toList = false) (rest : String) :
    fenced? language (codeBlock language line ++ rest) = some [line.toList] := by
  have opened : (("```" ++ language.languageId ++ "\n").toList.isPrefixOf?
      (codeBlock language line ++ rest).toList) =
        some (line.toList ++ '\n' :: ("```".toList ++ '\n' :: rest.toList)) := by
    rw [List.isPrefixOf?_eq_some_iff_append_eq]
    simp [codeBlock]
  have closing : '\n' ∉ "```".toList := by decide
  rw [fenced?, opened, Option.bind_some, List.splitOn_append_cons_self_of_not_mem inside,
    List.splitOn_append_cons_self_of_not_mem closing]
  have fence : fences "```".toList = true := by decide
  simp only [List.any_cons, List.takeWhile_cons, plain, fence, Bool.true_or, Bool.or_true,
    Bool.not_false, Bool.not_true, if_true, Bool.false_eq_true, if_false]

theorem fenced?_undefined (name : String) :
    fenced? language ("Undefined state " ++ quoted name) = none := by
  have unopened : ("```" ++ language.languageId ++ "\n").toList.isPrefixOf?
      ("Undefined state " ++ quoted name).toList = none := by
    simp [List.isPrefixOf?]
  rw [fenced?, unopened, Option.bind_none]

variable {text : String} {model : Model}

theorem exists_markdown?_eq (language : LanguageInfo) (parsed : Model.parse text = .ok model)
    {occurrence : Occurrence} {decl : Declaration}
    (first : model.FirstOf occurrence.kind occurrence.name.text decl) :
    ∃ rest, markdown? language model occurrence = some (codeBlock language decl.text ++ rest) := by
  obtain ⟨kind, name, definition⟩ := occurrence
  obtain rfl : decl.kind = kind := first.same
  have found := (Model.declaration?_eq_some_iff parsed).2 first
  cases decl with
  | machine decl =>
    have headed : model.machine = some decl := by
      have kept := (model.declaration?_machine name.text).symm.trans found
      obtain ⟨machine, kept, same⟩ := Option.map_eq_some_iff.1 kept
      rw [(Option.filter_eq_some_iff.1 kept).1, Declaration.machine.inj same]
    have shown : markdown? language model ⟨.machine, name, definition⟩ =
        some (machine language model decl) := by
      simp only [markdown?, headed, Option.map_some]
    exact ⟨_, shown.trans (congrArg some String.append_assoc)⟩
  | state decl =>
    have declared : model.state? name.text = some decl := by
      rw [Model.state?_eq parsed]
      exact congrArg (Option.bind · Declaration.state?) found
    have shown : markdown? language model ⟨.state, name, definition⟩ =
        some (state language model decl) := by
      simp only [markdown?, declared]
    exact ⟨_, shown.trans (congrArg some String.append_assoc)⟩
  | transition decl =>
    have declared : model.transition? name.text = some decl := by
      rw [Model.transition?_eq parsed]
      exact congrArg (Option.bind · Declaration.transition?) found
    have shown : markdown? language model ⟨.transition, name, definition⟩ =
        some (transition language decl) := by
      simp only [markdown?, declared, Option.map_some]
    obtain ⟨rest, split⟩ :
        ∃ rest, transition language decl = codeBlock language decl.text ++ rest := by
      rw [transition, String.append_assoc, String.append_assoc, String.append_assoc]
      exact ⟨_, rfl⟩
    exact ⟨rest, shown.trans (congrArg some split)⟩

theorem markdown?_of_not_declared (language : LanguageInfo)
    (parsed : Model.parse text = .ok model) {occurrence : Occurrence}
    (member : occurrence ∈ model.names)
    (undeclared : ¬model.Declared occurrence.kind occurrence.name.text) :
    markdown? language model occurrence =
      some ("Undefined state " ++ quoted occurrence.name.text) := by
  obtain ⟨decl, declared, inside⟩ := Model.mem_names_iff.1 member
  obtain ⟨kind, name, definition⟩ := occurrence
  obtain rfl : kind = .state := by
    cases definition with
    | true =>
      obtain ⟨rfl, rfl, -⟩ := Occurrence.mk.inj (Declaration.eq_of_mem_occurrences inside rfl)
      exact absurd ⟨decl, declared, rfl, rfl⟩ undeclared
    | false => exact Declaration.kind_of_mem_occurrences inside rfl
  have missing : model.state? name.text = none := by
    rw [Model.state?_eq parsed, Model.declaration?_eq_none_iff.2 undeclared, Option.bind_none]
  simp only [markdown?, missing]

-- Declarations start with a letter.
theorem fences_text (decl : Declaration) : fences decl.text.toList = false := by
  cases decl <;> simp [fences, List.isPrefixOf, Declaration.text, MachineDecl.text, StateDecl.text,
    TransitionDecl.text_eq]

section Answered

variable (language : LanguageInfo) (parsed : Model.parse text = .ok model) {offset : Nat}
  {occurrence : Occurrence} (here : model.symbolAt? offset = some occurrence)
include parsed here

theorem exists_hoverAt?_eq {first : Declaration}
    (firstOf : model.FirstOf occurrence.kind occurrence.name.text first) :
    ∃ info, hoverAt? language model offset = some info ∧ info.span = occurrence.name.span ∧
      fenced? language info.markdown = some [first.text.toList] := by
  obtain ⟨rest, shown⟩ := exists_markdown?_eq language parsed firstOf
  refine ⟨_, by rw [hoverAt?, here, Option.bind_some, shown, Option.map_some], rfl, ?_⟩
  have inside := Model.newline_not_mem_text parsed firstOf.member
  exact fenced?_codeBlock inside (fences_text first) rest

theorem fenced?_of_not_declared
    (undeclared : ¬model.Declared occurrence.kind occurrence.name.text) {info : HoverInfo}
    (answered : hoverAt? language model offset = some info) :
    fenced? language info.markdown = none := by
  have shown := markdown?_of_not_declared language parsed
    (Model.symbolAt?_eq_some here).1 undeclared
  rw [hoverAt?, here, Option.bind_some, shown] at answered
  obtain rfl := Option.some.inj answered
  exact fenced?_undefined _

end Answered

end Hover

theorem describing_exact {text : String} {model : Model} (read : Model.parse text = .ok model)
    {language : LanguageInfo} {offset : Nat} {info : HoverInfo}
    (answered : hoverAt? language model offset = some info) :
    ∃ occurrence, model.symbolAt? offset = some occurrence ∧
      let kind := occurrence.kind
      let name := occurrence.name.text
      let block := Hover.fenced? language info.markdown
      (block.isSome = true ↔ model.Declared kind name) ∧
        ∀ lines, block = some lines →
          ∃ line first one found, lines = [line] ∧ model.FirstOf kind name first ∧
            Model.parse (String.ofList line) = .ok one ∧ one.declarations = [found] ∧
            found.outline = first.outline := by
  obtain ⟨occurrence, here, -⟩ := Option.bind_eq_some_iff.1 answered
  refine ⟨occurrence, here, ?_⟩
  intro kind name block
  by_cases declared : model.Declared kind name
  · obtain ⟨first, firstOf⟩ := Model.exists_firstOf read declared
    obtain ⟨shown, same, -, fenced⟩ := Hover.exists_hoverAt?_eq language read here firstOf
    obtain rfl := Option.some.inj (answered.symm.trans same)
    obtain ⟨one, found, again, only, said⟩ := Model.parse_text read firstOf.member
    have shows : block = some [first.text.toList] := fenced
    simp only [shows, Option.isSome_some, declared, Option.some.injEq, true_and]
    rintro lines rfl
    exact ⟨_, first, one, found, rfl, firstOf, by rwa [String.ofList_toList], only, said⟩
  · have absent : block = none := Hover.fenced?_of_not_declared language read here declared answered
    simp [absent, declared]

-- A guard may look like a fence, a comment or a declaration.
theorem describing_exact_fence_in_guard :
    let text := "transition t from A to B when \"``` // \r state A\""
    ∃ model info line one found, Model.parse text = .ok model ∧
      hoverAt? .standard model 11 = some info ∧
      Hover.fenced? .standard info.markdown = some [line] ∧
      Model.parse (String.ofList line) = .ok one ∧ one.declarations = [found] ∧
      found.outline = ⟨none, [], [⟨"t", "A", "B", some "``` // \r state A"⟩]⟩ := by
  intro text
  let decl : TransitionDecl := ⟨⟨"t", ⟨11, 12⟩⟩, ⟨"A", ⟨18, 19⟩⟩, ⟨"B", ⟨23, 24⟩⟩,
    some "``` // \r state A", ⟨0, 48⟩⟩
  let model : Model := ⟨none, [], [decl]⟩
  have read : Model.parse text = .ok model := by decide +kernel
  have declared : model.declarations = [.transition decl] := List.mergeSort_singleton _
  have firstOf : model.FirstOf .transition "t" (.transition decl) :=
    Model.firstOf_head read declared
  have here : model.symbolAt? 11 = some ⟨.transition, decl.name, true⟩ := by
    rw [Model.symbolAt?_eq_some_iff read]
    exact ⟨List.mem_cons_self, rfl⟩
  obtain ⟨info, answered, -, shows⟩ := Hover.exists_hoverAt?_eq .standard read here firstOf
  obtain ⟨occurrence, there, -, reads⟩ := describing_exact read answered
  obtain rfl := Option.some.inj (here.symm.trans there)
  obtain ⟨line, first, one, found, same, other, again, only, said⟩ := reads _ shows
  obtain rfl := other.unique read firstOf
  exact ⟨model, info, line, one, found, read, answered, same ▸ shows, again, only, said⟩

theorem introducing_iff {text : String} {model : Model} (read : Model.parse text = .ok model)
    {decl : Declaration} (member : decl ∈ model.declarations) {offset : Nat}
    (touched : decl.name.span.touches offset = true) (language : LanguageInfo) :
    ∃ info first, hoverAt? language model offset = some info ∧ info.span = decl.name.span ∧
      model.FirstOf decl.kind decl.name.text first ∧
      Hover.fenced? language info.markdown = some [first.text.toList] ∧
      (Hover.fenced? language info.markdown = some [decl.text.toList] ↔
        first.outline = decl.outline) ∧
      ∀ position, offsetOf? text.toList position = some offset →
        model.definitionAt? text.toList position =
          some (extentOf text.toList decl.name.span) := by
  have listed := Model.mem_names_of_mem_declarations member
  have here := (Model.symbolAt?_eq_some_iff read).2 ⟨listed, touched⟩
  obtain ⟨first, firstOf⟩ := Model.exists_firstOf read ⟨decl, member, rfl, rfl⟩
  obtain ⟨info, answered, span, shows⟩ := Hover.exists_hoverAt?_eq language read here firstOf
  refine ⟨info, first, answered, span, firstOf, shows, ?_, ?_⟩
  · rw [shows, ← Model.text_eq_iff read firstOf.member member]
    simp [String.toList_inj]
  · intro position located
    have reached : model.symbolAtPosition? text.toList position =
        some ⟨decl.kind, decl.name, true⟩ := by
      rw [Model.symbolAtPosition?, LineIndex.offsetOf?_ofText, located, Option.bind_some, here]
    rw [Model.definitionAt?_eq read reached]
    rfl

theorem introducing_iff_again :
    let cs := "state A\nstate A".toList
    ∃ model info, Model.parse "state A\nstate A" = .ok model ∧
      hoverAt? .standard model 15 = some info ∧ info.span = ⟨14, 15⟩ ∧
      Hover.fenced? .standard info.markdown = some ["state A".toList] ∧
      model.definitionAt? cs ⟨1, 7⟩ = some ⟨⟨1, 6⟩, ⟨1, 7⟩⟩ := by
  intro cs
  let first : StateDecl := ⟨⟨"A", ⟨6, 7⟩⟩, false, ⟨0, 8⟩⟩
  let second : StateDecl := ⟨⟨"A", ⟨14, 15⟩⟩, false, ⟨8, 15⟩⟩
  let model : Model := ⟨none, [first, second], []⟩
  have read : Model.parse "state A\nstate A" = .ok model := by decide +kernel
  have declared : model.declarations = [.state first, .state second] :=
    mergeSort_le_of_perm (by decide) (.refl _)
  have firstOf : model.FirstOf .state "A" (.state first) := Model.firstOf_head read declared
  have member : .state second ∈ model.declarations := by simp [declared]
  obtain ⟨info, decl, answered, span, other, -, own, leads⟩ :=
    introducing_iff read member (show second.name.span.touches 15 = true from rfl) .standard
  obtain rfl := other.unique read firstOf
  have extent : extentOf cs second.name.span = ⟨⟨1, 6⟩, ⟨1, 7⟩⟩ := by decide +kernel
  exact ⟨model, info, read, answered, span, own.2 rfl, extent ▸ leads ⟨1, 7⟩ (by decide +kernel)⟩

-- The second declaration leads to itself, but the hover over it shows the first.
theorem hoverAt?_second_declaration :
    let cs := "state A\nstate A initial".toList
    ∃ model decl info, Model.parse "state A\nstate A initial" = .ok model ∧
      decl ∈ model.declarations ∧ decl.name.span.touches 14 = true ∧
      hoverAt? .standard model 14 = some info ∧ decl.text = "state A initial" ∧
      Hover.fenced? .standard info.markdown = some ["state A".toList] ∧
      model.definitionAt? cs ⟨1, 6⟩ = some (extentOf cs decl.name.span) := by
  intro cs
  let first : StateDecl := ⟨⟨"A", ⟨6, 7⟩⟩, false, ⟨0, 8⟩⟩
  let second : StateDecl := ⟨⟨"A", ⟨14, 15⟩⟩, true, ⟨8, 23⟩⟩
  let model : Model := ⟨none, [first, second], []⟩
  have read : Model.parse "state A\nstate A initial" = .ok model := by decide +kernel
  have declared : model.declarations = [.state first, .state second] :=
    mergeSort_le_of_perm (by decide) (.refl _)
  have firstOf : model.FirstOf .state "A" (.state first) := Model.firstOf_head read declared
  have here : model.symbolAt? 14 = some ⟨.state, second.name, true⟩ := by
    rw [Model.symbolAt?_eq_some_iff read]
    exact ⟨by simp [model, Model.names], rfl⟩
  obtain ⟨info, answered, -, shows⟩ := Hover.exists_hoverAt?_eq .standard read here firstOf
  have located : offsetOf? cs ⟨1, 6⟩ = some 14 := by decide +kernel
  have reached : model.symbolAtPosition? cs ⟨1, 6⟩ = some ⟨.state, second.name, true⟩ := by
    rw [Model.symbolAtPosition?, LineIndex.offsetOf?_ofText, located, Option.bind_some, here]
  refine ⟨model, .state second, info, read, by simp [declared], rfl, answered, rfl, shows, ?_⟩
  rw [Model.definitionAt?_eq read reached]
  rfl

end FsmWorkbench
