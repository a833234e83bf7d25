import FsmWorkbench.Proofs.Notation.Proceeding

set_option autoImplicit false

namespace FsmWorkbench

namespace TransitionDecl

def references (transition : TransitionDecl) : List (Keyword × Name) :=
  [(.source, transition.source), (.target, transition.target)]

theorem mem_references_iff {transition : TransitionDecl} {word : Keyword} {name : Name} :
    (word, name) ∈ transition.references ↔
      word = .source ∧ name = transition.source ∨ word = .target ∧ name = transition.target := by
  simp [references]

def heading (transition : TransitionDecl) (leaving entering : Span) : List Token :=
  [⟨.name transition.name.text, transition.name.span⟩, ⟨.keyword .source, leaving⟩,
    ⟨.name transition.source.text, transition.source.span⟩, ⟨.keyword .target, entering⟩,
    ⟨.name transition.target.text, transition.target.span⟩]

end TransitionDecl

namespace TokenStream

variable {stream rest : TokenStream}

def Joins (stream : TokenStream) (word : Keyword) (name : Name) : Prop :=
  ∃ (front : List Token) (former : Name) (span : Span) (later : TokenStream),
    stream = (token ⟨.name name.text, name.span⟩ later).prepend
      (front ++ [⟨.name former.text, former.span⟩, ⟨.keyword word, span⟩])

theorem Joins.prepend {word : Keyword} {name : Name} (joins : rest.Joins word name)
    (tokens : List Token) : (rest.prepend tokens).Joins word name := by
  obtain ⟨front, former, span, later, rfl⟩ := joins
  exact ⟨tokens ++ front, former, span, later, by rw [List.append_assoc, prepend_append tokens]⟩

theorem joins_heading {transition : TransitionDecl} {word : Keyword} {name : Name}
    (refers : (word, name) ∈ transition.references) (leaving entering : Span) :
    (rest.prepend (transition.heading leaving entering)).Joins word name := by
  rcases TransitionDecl.mem_references_iff.1 refers with ⟨rfl, rfl⟩ | ⟨rfl, rfl⟩
  · exact ⟨[], transition.name, leaving, _, rfl⟩
  · exact ⟨[_, _], transition.source, entering, rest, rfl⟩

theorem exists_prepend_of_state? {start : Nat} {state : StateDecl}
    (found : stream.state? start = some (state, rest)) :
    ∃ tokens, stream = rest.prepend tokens := by
  obtain ⟨later, rfl, ⟨-, rfl⟩ | ⟨-, flag, rfl⟩⟩ := state?_cases found
  · exact ⟨[_], rfl⟩
  · exact ⟨[_, _], rfl⟩

theorem exists_heading_of_transition? {start : Nat} {transition : TransitionDecl}
    (found : stream.transition? start = some (transition, rest)) :
    ∃ leaving entering tokens,
      stream = (rest.prepend tokens).prepend (transition.heading leaving entering) := by
  obtain ⟨leaving, entering, later, rfl, ended⟩ := transition?_cases found
  rcases ended with ⟨-, rfl⟩ | ⟨content, opening, span, -, rfl⟩
  · exact ⟨leaving, entering, [], rfl⟩
  · exact ⟨leaving, entering, [_, _], rfl⟩

theorem joins_of_declaration? {decl : Declaration}
    (found : stream.declaration? = some (decl, rest)) :
    ∃ head tokens, stream = rest.prepend (head :: tokens) ∧
      ∀ transition, decl = .transition transition →
        ∀ word name, (word, name) ∈ transition.references → stream.Joins word name := by
  rw [declaration?.eq_def] at found
  split at found
  · obtain ⟨⟨state, later⟩, read, same⟩ := Option.map_eq_some_iff.1 found
    obtain ⟨rfl, rfl⟩ := Prod.mk.inj same
    obtain ⟨tokens, rfl⟩ := exists_prepend_of_state? read
    exact ⟨_, tokens, rfl, fun _ other => by cases other⟩
  · obtain ⟨⟨transition, later⟩, read, same⟩ := Option.map_eq_some_iff.1 found
    obtain ⟨rfl, rfl⟩ := Prod.mk.inj same
    obtain ⟨leaving, entering, tokens, rfl⟩ := exists_heading_of_transition? read
    have whole := prepend_append (transition.heading leaving entering) tokens later
    refine ⟨⟨.keyword .transition, _⟩, _, congrArg (token _) whole.symm, ?_⟩
    rintro _ ⟨⟩ word name refers
    exact (joins_heading refers leaving entering).prepend [_]
  · cases found

end TokenStream

theorem joins_of_readAll_settled {stream : TokenStream} {decls : List Declaration}
    (read : readAll .settled stream = some decls) {transition : TransitionDecl}
    (member : .transition transition ∈ decls) {word : Keyword} {name : Name}
    (refers : (word, name) ∈ transition.references) : stream.Joins word name := by
  induction n : stream.lexemes.length using Nat.strongRecOn generalizing stream decls with
  | ind n ih =>
    subst n
    rw [readAll_settled] at read
    split at read
    · next decl rest found =>
      obtain ⟨head, tokens, rfl, joins⟩ := TokenStream.joins_of_declaration? found
      obtain ⟨more, later, rfl⟩ := Option.map_eq_some_iff.1 read
      rcases List.mem_cons.1 member with here | below
      · exact joins transition here.symm word name refers
      · have shorter : rest.lexemes.length < (rest.prepend (head :: tokens)).lexemes.length := by
          rw [TokenStream.lexemes_prepend, List.length_append, List.length_map, List.length_cons]
          omega
        exact (ih _ shorter later below rfl).prepend (head :: tokens)
    · next =>
      split at read
      · obtain rfl := Option.some.inj read
        cases member
      · cases read

def guarding (name source target : String) : List Lexeme :=
  (Item.transition ⟨name, source, target, none⟩).lexemes ++ [.keyword .guard]

theorem Item.front_eq_guarding {item : Item} {front later : List Lexeme} {content : String}
    (same : item.lexemes = front ++ .quoted content :: later) :
    ∃ name source target, front = guarding name source target := by
  rcases item with ⟨name, _ | _⟩ | ⟨name, source, target, _ | guard⟩
  case transition.some =>
    have parts : front = guarding name source target ∧ content = guard ∧ later = [] := by
      simpa [lexemes, guarding, List.cons_eq_append_iff] using same
    exact ⟨name, source, target, parts.1⟩
  all_goals simp [lexemes, List.cons_eq_append_iff] at same

theorem exists_guarding_of_items {items : List Item} {front later : List Lexeme} {content : String}
    (same : items.flatMap Item.lexemes = front ++ .quoted content :: later) :
    ∃ before name source target, front = before ++ guarding name source target := by
  induction items generalizing front with
  | nil => simp at same
  | cons item items ih =>
    rw [List.flatMap_cons] at same
    rcases List.append_eq_append_iff.1 same with ⟨left, rfl, behind⟩ | ⟨left, within, behind⟩
    · obtain ⟨before, name, source, target, rfl⟩ := ih behind
      exact ⟨item.lexemes ++ before, name, source, target, (List.append_assoc ..).symm⟩
    · cases left with
      | nil =>
        have same : items.flatMap Item.lexemes = [] ++ .quoted content :: later := behind.symm
        obtain ⟨before, name, source, target, ends⟩ := ih same
        simp [guarding] at ends
      | cons head left =>
        obtain ⟨rfl, -⟩ := List.cons.inj behind
        obtain ⟨name, source, target, rfl⟩ := item.front_eq_guarding within
        exact ⟨[], name, source, target, rfl⟩

theorem Program.exists_guarding {program : Program} {front later : List Lexeme} {content : String}
    (same : program.lexemes = front ++ .quoted content :: later) :
    ∃ before name source target, front = before ++ guarding name source target := by
  obtain ⟨machine, items⟩ := program
  cases machine with
  | none => exact exists_guarding_of_items same
  | some named =>
    rcases front with _ | ⟨first, _ | ⟨second, front⟩⟩
    · cases same
    · cases same
    · obtain ⟨before, name, source, target, rfl⟩ :=
        exists_guarding_of_items (List.cons.inj (List.cons.inj same).2).2
      exact ⟨first :: second :: before, name, source, target, rfl⟩

theorem Lexeme.exists_run (lexemes : List Lexeme) :
    ∃ run more, lexemes = run ++ more ∧ (∀ lexeme ∈ run, lexeme.IsWord) ∧
      ∀ lexeme ∈ more.head?, ∃ content, lexeme = .quoted content := by
  induction lexemes with
  | nil => exact ⟨[], [], rfl, List.forall_mem_nil _, by simp⟩
  | cons first lexemes ih =>
    obtain ⟨run, more, rfl, words, ends⟩ := ih
    cases first with
    | quoted content => exact ⟨[], _, rfl, List.forall_mem_nil _, by simp⟩
    | keyword | name => exact ⟨_ :: run, more, rfl, List.forall_mem_cons.2 ⟨trivial, words⟩, ends⟩

namespace Program

variable {program : Program} {others run more : List Lexeme} {content : String}

-- The words in front of a quoted string are the last of a guarded transition, or go further back.
theorem exists_suffix (same : program.lexemes = others ++ (run ++ .quoted content :: more)) :
    ∃ name source target, run <:+ guarding name source target ∨
      guarding name source target <:+ run := by
  rw [← List.append_assoc] at same
  obtain ⟨before, name, source, target, ends⟩ := Program.exists_guarding same
  refine ⟨name, source, target, ?_⟩
  exact List.suffix_or_suffix_of_suffix ⟨others, ends⟩ ⟨before, rfl⟩

theorem eq_guard_of_singleton {word : Lexeme}
    (same : program.lexemes = others ++ ([word] ++ .quoted content :: more)) :
    word = .keyword .guard := by
  obtain ⟨name, source, target, short | long⟩ := exists_suffix same
  · obtain ⟨front, whole⟩ := short
    have last := congrArg List.getLast? whole
    rw [List.getLast?_concat] at last
    exact Option.some.inj last
  · have := long.length_le
    simp [guarding, Item.lexemes] at this

-- Only the first word of a declaration begins one.
theorem length_of_opens {word : Keyword}
    (same : program.lexemes = others ++ (.keyword word :: run ++ .quoted content :: more))
    (opens : word ∈ [Keyword.machine, .state, .transition]) : 6 ≤ run.length := by
  obtain ⟨name, source, target, short | long⟩ := exists_suffix same
  · obtain ⟨front, whole⟩ := short
    cases front with
    | nil =>
      have sized := congrArg List.length whole
      simp [guarding, Item.lexemes] at sized
      omega
    | cons head front =>
      have member : Lexeme.keyword word ∈ (guarding name source target).tail := by
        rw [← whole]
        simp
      simp only [List.mem_cons, List.not_mem_nil, or_false] at opens
      rcases opens with rfl | rfl | rfl <;> simp [guarding, Item.lexemes] at member
  · have := long.length_le
    simp [guarding, Item.lexemes] at this
    omega

end Program

namespace Model

variable {text : String} {model : Model}

theorem exists_parse_iff :
    (∃ model, parse text = .ok model) ↔ (TokenStream.ofText text).complete = true ∧
      ∃ program : Program, (TokenStream.ofText text).lexemes = program.lexemes := by
  constructor
  · rintro ⟨model, parsed⟩
    obtain ⟨decls, read, -⟩ := parse_eq_ok_iff.1 parsed
    obtain ⟨complete, program, same, -⟩ := readAll_opening_iff.1 ⟨decls, read, rfl⟩
    exact ⟨complete, program, same⟩
  · rintro ⟨complete, program, same⟩
    obtain ⟨decls, read, -⟩ := readAll_opening_iff.2 ⟨complete, program, same, rfl⟩
    exact ⟨_, parse_eq_ok_iff.2 ⟨decls, read, rfl⟩⟩

theorem exists_program (parsed : parse text = .ok model) :
    ∃ program : Program, Proceeds text.toList program.lexemes [] ∧
      program.outline = model.outline := by
  obtain ⟨decls, read, rfl⟩ := parse_eq_ok_iff.1 parsed
  obtain ⟨complete, program, same, outlined⟩ := readAll_opening_iff.1 ⟨decls, read, rfl⟩
  exact ⟨program, Proceeds.end_iff.2 ⟨complete, same⟩, outlined⟩

theorem joins_of_parse (parsed : parse text = .ok model) {transition : TransitionDecl}
    (member : transition ∈ model.transitions) {word : Keyword} {name : Name}
    (refers : (word, name) ∈ transition.references) :
    (TokenStream.ofText text).Joins word name := by
  obtain ⟨decls, read, rfl⟩ := parse_eq_ok_iff.1 parsed
  obtain ⟨decl, listed, found⟩ := List.mem_filterMap.1 member
  cases decl with
  | machine | state => cases found
  | transition decl =>
    obtain rfl := Option.some.inj found
    rw [readAll_opening] at read
    split at read
    · next machine rest found =>
      obtain ⟨⟨span, named⟩, opened, header⟩ := Option.bind_eq_some_iff.1 found
      obtain ⟨more, later, rfl⟩ := Option.map_eq_some_iff.1 read
      rw [TokenStream.keyword?_eq_some_iff.1 opened,
        (TokenStream.machine?_eq_some_iff.1 header).1]
      have below : .transition decl ∈ more := by simpa using listed
      exact (joins_of_readAll_settled later below refers).prepend [_, _]
    · exact joins_of_readAll_settled read listed refers

end Model

end FsmWorkbench
