import FsmWorkbench.Proofs.Notation.Program

set_option autoImplicit false

namespace FsmWorkbench

namespace TokenStream

def keyword? (word : Keyword) : TokenStream → Option (Span × TokenStream)
  | .token ⟨.keyword found, span⟩ rest => if found = word then some (span, rest) else none
  | _ => none

def name? : TokenStream → Option (Name × TokenStream)
  | .token ⟨.name text, span⟩ rest => some (⟨text, span⟩, rest)
  | _ => none

def quoted? : TokenStream → Option ((String × Span) × TokenStream)
  | .token ⟨.quoted content, span⟩ rest => some ((content, span), rest)
  | _ => none

-- The declarations from behind their keywords, which stand at the given start. Where an optional
-- last part is missing, the declaration reaches up to the next token.
def machine? (start : Nat) (stream : TokenStream) : Option (MachineDecl × TokenStream) :=
  stream.name?.bind fun (name, rest) => some (⟨name, ⟨start, name.span.stop⟩⟩, rest)

def state? (start : Nat) (stream : TokenStream) : Option (StateDecl × TokenStream) :=
  stream.name?.bind fun (name, flagged) =>
    match flagged.keyword? .initial with
    | some (flag, rest) => some (⟨name, true, ⟨start, flag.stop⟩⟩, rest)
    | none => some (⟨name, false, ⟨start, flagged.start⟩⟩, flagged)

def guard? (stream : TokenStream) : Option ((String × Span) × TokenStream) :=
  (stream.keyword? .guard).bind fun (_, rest) => rest.quoted?

def transition? (start : Nat) (stream : TokenStream) : Option (TransitionDecl × TokenStream) :=
  stream.name?.bind fun (name, leaving) =>
    (leaving.keyword? .source).bind fun (_, sourced) =>
      sourced.name?.bind fun (source, entering) =>
        (entering.keyword? .target).bind fun (_, targeted) =>
          targeted.name?.bind fun (target, guarded) =>
            match guarded.guard? with
            | some ((content, span), rest) =>
              some (⟨name, source, target, some content, ⟨start, span.stop⟩⟩, rest)
            | none => some (⟨name, source, target, none, ⟨start, guarded.start⟩⟩, guarded)

def declaration? : TokenStream → Option (Declaration × TokenStream)
  | .token ⟨.keyword .state, span⟩ rest =>
    (rest.state? span.start).map fun (state, later) => (.state state, later)
  | .token ⟨.keyword .transition, span⟩ rest =>
    (rest.transition? span.start).map fun (transition, later) => (.transition transition, later)
  | _ => none

def exhausted : TokenStream → Bool
  | .finished _ => true
  | _ => false

end TokenStream

def readAll (stage : Stage) (stream : TokenStream) : Option (List Declaration) :=
  (readFrom stage stream).toOption

@[simp] theorem readAll_token (stage : Stage) (head : Token) (rest : TokenStream) :
    readAll stage (.token head rest) =
      (stage.advance? head).bind fun (decls, next) => (readAll next rest).map (decls ++ ·) := by
  simp only [readAll, readFrom]
  cases stage.advance? head with
  | none => rfl
  | some step =>
    obtain ⟨decls, next⟩ := step
    cases h : readFrom next rest <;> simp [h, Except.map, Except.toOption]

@[simp] theorem readAll_finished (stage : Stage) (offset : Nat) :
    readAll stage (.finished offset) = stage.finish? offset := by
  simp only [readAll, readFrom]
  cases stage.finish? offset <;> rfl

@[simp] theorem readAll_blocked (stage : Stage) (offset : Nat) :
    readAll stage (.blocked offset) = none := rfl

section Stages

attribute [local simp] Stage.advance? Stage.finish? TokenStream.keyword? TokenStream.name?
  TokenStream.quoted?

-- Each lemma says what one stage takes and where reading goes on.
variable (start : Nat) (name source target : Name) (stream : TokenStream)

theorem readAll_machineName :
    readAll (.machineName start) stream =
      stream.name?.bind fun (name, rest) =>
        (readAll .settled rest).map (.machine ⟨name, ⟨start, name.span.stop⟩⟩ :: ·) := by
  rcases stream with offset | offset | ⟨⟨word | text | content, span⟩, rest⟩
  case token.keyword => cases word <;> rfl
  all_goals simp

theorem readAll_stateName :
    readAll (.stateName start) stream =
      stream.name?.bind fun (name, rest) => readAll (.stateFlag start name) rest := by
  rcases stream with offset | offset | ⟨⟨word | text | content, span⟩, rest⟩
  case token.keyword => cases word <;> rfl
  all_goals simp

theorem readAll_stateFlag :
    readAll (.stateFlag start name) stream =
      match stream.keyword? .initial with
      | some (flag, rest) =>
        (readAll .settled rest).map (.state ⟨name, true, ⟨start, flag.stop⟩⟩ :: ·)
      | none =>
        (readAll .settled stream).map (.state ⟨name, false, ⟨start, stream.start⟩⟩ :: ·) := by
  rcases stream with offset | offset | ⟨⟨word | text | content, span⟩, rest⟩
  case token.keyword =>
    cases word <;> simp [TokenStream.start]
  all_goals simp [TokenStream.start]

theorem readAll_transitionName :
    readAll (.transitionName start) stream =
      stream.name?.bind fun (name, rest) => readAll (.sourceWord start name) rest := by
  rcases stream with offset | offset | ⟨⟨word | text | content, span⟩, rest⟩
  case token.keyword => cases word <;> rfl
  all_goals simp

theorem readAll_sourceWord :
    readAll (.sourceWord start name) stream =
      (stream.keyword? .source).bind fun (_, rest) => readAll (.sourceName start name) rest := by
  rcases stream with offset | offset | ⟨⟨word | text | content, span⟩, rest⟩
  case token.keyword =>
    cases word <;> simp
  all_goals simp

theorem readAll_sourceName :
    readAll (.sourceName start name) stream =
      stream.name?.bind fun (source, rest) => readAll (.targetWord start name source) rest := by
  rcases stream with offset | offset | ⟨⟨word | text | content, span⟩, rest⟩
  case token.keyword => cases word <;> rfl
  all_goals simp

theorem readAll_targetWord :
    readAll (.targetWord start name source) stream =
      (stream.keyword? .target).bind fun (_, rest) =>
        readAll (.targetName start name source) rest := by
  rcases stream with offset | offset | ⟨⟨word | text | content, span⟩, rest⟩
  case token.keyword =>
    cases word <;> simp
  all_goals simp

theorem readAll_targetName :
    readAll (.targetName start name source) stream =
      stream.name?.bind fun (target, rest) =>
        readAll (.guardWord start name source target) rest := by
  rcases stream with offset | offset | ⟨⟨word | text | content, span⟩, rest⟩
  case token.keyword => cases word <;> rfl
  all_goals simp

theorem readAll_guardText :
    readAll (.guardText start name source target) stream =
      stream.quoted?.bind fun ((content, span), rest) =>
        (readAll .settled rest).map
          (.transition ⟨name, source, target, some content, ⟨start, span.stop⟩⟩ :: ·) := by
  rcases stream with offset | offset | ⟨⟨word | text | content, span⟩, rest⟩
  case token.keyword => cases word <;> rfl
  all_goals simp

-- A guard that goes wrong is no guard, and then nothing can start with its keyword either.
theorem readAll_guardWord :
    readAll (.guardWord start name source target) stream =
      match stream.guard? with
      | some ((content, span), rest) =>
        (readAll .settled rest).map
          (.transition ⟨name, source, target, some content, ⟨start, span.stop⟩⟩ :: ·)
      | none =>
        (readAll .settled stream).map
          (.transition ⟨name, source, target, none, ⟨start, stream.start⟩⟩ :: ·) := by
  rcases stream with offset | offset | ⟨⟨word | text | content, span⟩, rest⟩
  case token.keyword =>
    cases word
    case guard =>
      simp only [readAll_token, Stage.advance?, Option.bind_some, List.nil_append, Option.map_id',
        readAll_guardText, TokenStream.guard?, TokenStream.keyword?, if_true]
      cases rest.quoted? <;> simp
    all_goals simp [Stage.advance?, Stage.finish?, TokenStream.guard?, TokenStream.keyword?,
      TokenStream.start]
  all_goals simp [Stage.advance?, Stage.finish?, TokenStream.guard?, TokenStream.keyword?,
    TokenStream.start]

theorem readAll_state :
    readAll (.stateName start) stream =
      (stream.state? start).bind fun (state, rest) =>
        (readAll .settled rest).map (.state state :: ·) := by
  rw [readAll_stateName, TokenStream.state?]
  rcases stream.name? with _ | ⟨name, flagged⟩
  · rfl
  · simp only [Option.bind_some, readAll_stateFlag]
    cases flagged.keyword? .initial <;> rfl

theorem readAll_transition :
    readAll (.transitionName start) stream =
      (stream.transition? start).bind fun (transition, rest) =>
        (readAll .settled rest).map (.transition transition :: ·) := by
  simp only [readAll_transitionName, readAll_sourceWord, readAll_sourceName, readAll_targetWord,
    readAll_targetName, readAll_guardWord, TokenStream.transition?, Option.bind_assoc]
  apply Option.bind_congr
  rintro ⟨name, leaving⟩ -
  apply Option.bind_congr
  rintro ⟨_, sourced⟩ -
  apply Option.bind_congr
  rintro ⟨source, entering⟩ -
  apply Option.bind_congr
  rintro ⟨_, targeted⟩ -
  apply Option.bind_congr
  rintro ⟨target, guarded⟩ -
  cases guarded.guard? <;> rfl

end Stages

theorem readAll_settled (stream : TokenStream) :
    readAll .settled stream =
      match stream.declaration? with
      | some (decl, rest) => (readAll .settled rest).map (decl :: ·)
      | none => if stream.exhausted then some [] else none := by
  rcases stream with offset | offset | ⟨⟨word | text | content, span⟩, rest⟩
  case token.keyword =>
    cases word
    case state =>
      simp only [readAll_token, Stage.advance?, Stage.finish?, Option.map_some, Option.bind_some,
        List.nil_append, Option.map_id', readAll_state, TokenStream.declaration?]
      cases rest.state? span.start <;> rfl
    case transition =>
      simp only [readAll_token, Stage.advance?, Stage.finish?, Option.map_some, Option.bind_some,
        List.nil_append, Option.map_id', readAll_transition, TokenStream.declaration?]
      cases rest.transition? span.start <;> rfl
    all_goals rfl
  all_goals rfl

theorem readAll_opening_machine (span : Span) (rest : TokenStream) :
    readAll .opening (.token ⟨.keyword .machine, span⟩ rest) =
      (rest.machine? span.start).bind fun (machine, later) =>
        (readAll .settled later).map (.machine machine :: ·) := by
  simp only [readAll_token, Stage.advance?, Option.bind_some, List.nil_append, Option.map_id',
    readAll_machineName, TokenStream.machine?]
  cases rest.name? <;> rfl

theorem readAll_opening_of_keyword?_eq_none {stream : TokenStream}
    (absent : stream.keyword? .machine = none) :
    readAll .opening stream = readAll .settled stream := by
  rcases stream with offset | offset | ⟨⟨word | text | content, span⟩, rest⟩
  case token.keyword => cases word <;> first | rfl | simp [TokenStream.keyword?] at absent
  all_goals rfl

namespace TokenStream

variable {stream rest : TokenStream}

theorem keyword?_eq_some_iff {word : Keyword} {span : Span} :
    stream.keyword? word = some (span, rest) ↔ stream = .token ⟨.keyword word, span⟩ rest := by
  rcases stream with offset | offset | ⟨⟨found | text | content, span⟩, later⟩ <;>
    simp [keyword?, and_assoc]

theorem name?_eq_some_iff {name : Name} :
    stream.name? = some (name, rest) ↔ stream = .token ⟨.name name.text, name.span⟩ rest := by
  obtain ⟨text, span⟩ := name
  rcases stream with offset | offset | ⟨⟨found | text | content, span⟩, later⟩ <;>
    simp [name?, and_assoc]

theorem quoted?_eq_some_iff {content : String} {span : Span} :
    stream.quoted? = some ((content, span), rest) ↔
      stream = .token ⟨.quoted content, span⟩ rest := by
  rcases stream with offset | offset | ⟨⟨found | text | content, span⟩, later⟩ <;>
    simp [quoted?, and_assoc]

@[simp] theorem keyword?_token (word : Keyword) (span : Span) (rest : TokenStream) :
    (token ⟨.keyword word, span⟩ rest).keyword? word = some (span, rest) :=
  keyword?_eq_some_iff.2 rfl

theorem keyword?_eq_none {word : Keyword} (absent : stream.lexemes.head? ≠ some (.keyword word)) :
    stream.keyword? word = none := by
  rcases stream with offset | offset | ⟨⟨found | text | content, span⟩, later⟩ <;>
    simp_all [keyword?]

theorem exists_token_of_lexemes_eq_cons {lexeme : Lexeme} {more : List Lexeme}
    (same : stream.lexemes = lexeme :: more) :
    ∃ span rest, stream = .token ⟨lexeme, span⟩ rest ∧ rest.lexemes = more := by
  rcases stream with offset | offset | ⟨⟨found, span⟩, later⟩
  case token =>
    obtain ⟨rfl, rfl⟩ := List.cons.inj same
    exact ⟨span, later, rfl, rfl⟩
  all_goals cases same

end TokenStream

def Declaration.item? : Declaration → Option Item
  | .machine _ => none
  | .state decl => some (.state decl.name.text decl.initial)
  | .transition decl => some (.transition decl.outline)

namespace TokenStream

theorem state?_cases {start : Nat} {stream rest : TokenStream} {state : StateDecl}
    (found : stream.state? start = some (state, rest)) :
    ∃ later, stream = .token ⟨.name state.name.text, state.name.span⟩ later ∧
      (state.initial = false ∧ later = rest ∨
        state.initial = true ∧ ∃ flag, later = .token ⟨.keyword .initial, flag⟩ rest) := by
  obtain ⟨⟨name, later⟩, named, ended⟩ := Option.bind_eq_some_iff.1 found
  obtain rfl := name?_eq_some_iff.1 named
  dsimp only at ended
  split at ended
  · next flag after initial =>
    obtain rfl := keyword?_eq_some_iff.1 initial
    obtain ⟨rfl, rfl⟩ := Prod.mk.inj (Option.some.inj ended)
    exact ⟨_, rfl, .inr ⟨rfl, flag, rfl⟩⟩
  · obtain ⟨rfl, rfl⟩ := Prod.mk.inj (Option.some.inj ended)
    exact ⟨_, rfl, .inl ⟨rfl, rfl⟩⟩

theorem transition?_cases {start : Nat} {stream rest : TokenStream} {transition : TransitionDecl}
    (found : stream.transition? start = some (transition, rest)) :
    ∃ leaving entering later,
      stream = .token ⟨.name transition.name.text, transition.name.span⟩
        (.token ⟨.keyword .source, leaving⟩
          (.token ⟨.name transition.source.text, transition.source.span⟩
            (.token ⟨.keyword .target, entering⟩
              (.token ⟨.name transition.target.text, transition.target.span⟩ later)))) ∧
        (transition.guard = none ∧ later = rest ∨
          ∃ content opening span, transition.guard = some content ∧
            later = .token ⟨.keyword .guard, opening⟩ (.token ⟨.quoted content, span⟩ rest)) := by
  obtain ⟨⟨name, left⟩, named, found⟩ := Option.bind_eq_some_iff.1 found
  obtain ⟨⟨leaving, sourced⟩, leftWord, found⟩ := Option.bind_eq_some_iff.1 found
  obtain ⟨⟨source, entered⟩, sourceNamed, found⟩ := Option.bind_eq_some_iff.1 found
  obtain ⟨⟨entering, targeted⟩, enteredWord, found⟩ := Option.bind_eq_some_iff.1 found
  obtain ⟨⟨target, later⟩, targetNamed, ended⟩ := Option.bind_eq_some_iff.1 found
  obtain rfl := name?_eq_some_iff.1 named
  obtain rfl := keyword?_eq_some_iff.1 leftWord
  obtain rfl := name?_eq_some_iff.1 sourceNamed
  obtain rfl := keyword?_eq_some_iff.1 enteredWord
  obtain rfl := name?_eq_some_iff.1 targetNamed
  dsimp only at ended
  split at ended
  · next content span after guard =>
    obtain ⟨⟨opening, quoted⟩, opened, closed⟩ := Option.bind_eq_some_iff.1 guard
    obtain rfl := keyword?_eq_some_iff.1 opened
    obtain rfl := quoted?_eq_some_iff.1 closed
    obtain ⟨rfl, rfl⟩ := Prod.mk.inj (Option.some.inj ended)
    exact ⟨leaving, entering, _, rfl, .inr ⟨content, opening, span, rfl, rfl⟩⟩
  · obtain ⟨rfl, rfl⟩ := Prod.mk.inj (Option.some.inj ended)
    exact ⟨leaving, entering, _, rfl, .inl ⟨rfl, rfl⟩⟩

theorem lexemes_of_state? {start : Nat} {stream rest : TokenStream} {state : StateDecl}
    (found : stream.state? start = some (state, rest)) :
    .keyword .state :: stream.lexemes =
      (Item.state state.name.text state.initial).lexemes ++ rest.lexemes ∧
        stream.complete = rest.complete := by
  obtain ⟨later, rfl, ⟨unflagged, rfl⟩ | ⟨flagged, flag, rfl⟩⟩ := state?_cases found
  · rw [unflagged]
    exact ⟨rfl, rfl⟩
  · rw [flagged]
    exact ⟨rfl, rfl⟩

theorem lexemes_of_transition? {start : Nat} {stream rest : TokenStream}
    {transition : TransitionDecl} (found : stream.transition? start = some (transition, rest)) :
    .keyword .transition :: stream.lexemes =
      (Item.transition transition.outline).lexemes ++ rest.lexemes ∧
        stream.complete = rest.complete := by
  obtain ⟨leaving, entering, later, rfl, ended⟩ := transition?_cases found
  rw [TransitionDecl.outline]
  rcases ended with ⟨unguarded, rfl⟩ | ⟨content, opening, span, guarded, rfl⟩
  · rw [unguarded]
    exact ⟨rfl, rfl⟩
  · rw [guarded]
    exact ⟨rfl, rfl⟩

theorem lexemes_of_declaration? {stream rest : TokenStream} {decl : Declaration}
    (found : stream.declaration? = some (decl, rest)) :
    ∃ item, decl.item? = some item ∧ stream.lexemes = item.lexemes ++ rest.lexemes ∧
      stream.complete = rest.complete := by
  rw [declaration?.eq_def] at found
  split at found
  · obtain ⟨⟨state, later⟩, read, same⟩ := Option.map_eq_some_iff.1 found
    obtain ⟨rfl, rfl⟩ := Prod.mk.inj same
    exact ⟨_, rfl, lexemes_of_state? read⟩
  · obtain ⟨⟨transition, later⟩, read, same⟩ := Option.map_eq_some_iff.1 found
    obtain ⟨rfl, rfl⟩ := Prod.mk.inj same
    exact ⟨_, rfl, lexemes_of_transition? read⟩
  · cases found

theorem lexemes_eq_nil_of_exhausted {stream : TokenStream} (ended : stream.exhausted = true) :
    stream.lexemes = [] ∧ stream.complete = true := by
  cases stream <;> simp_all [exhausted, complete]

theorem exhausted_of_lexemes_eq_nil {stream : TokenStream} (complete : stream.complete = true)
    (none : stream.lexemes = []) : stream.exhausted = true := by
  cases stream <;> simp_all [exhausted, TokenStream.complete]

-- What may follow an item without being taken for its optional last part.
def Follows (lexemes : List Lexeme) : Prop :=
  lexemes.head? ≠ some (.keyword .initial) ∧ lexemes.head? ≠ some (.keyword .guard)

theorem follows_flatMap (items : List Item) : Follows (items.flatMap Item.lexemes) := by
  rcases items with _ | ⟨_ | ⟨_, _, _, _⟩, more⟩ <;> simp [Follows, Item.lexemes]

theorem exists_declaration? {stream : TokenStream} {item : Item} {more : List Lexeme}
    (same : stream.lexemes = item.lexemes ++ more) (follows : Follows more) :
    ∃ decl rest, stream.declaration? = some (decl, rest) ∧ decl.item? = some item ∧
      rest.lexemes = more := by
  rcases item with ⟨name, initial⟩ | ⟨name, source, target, guard⟩
  case state =>
    obtain ⟨opening, afterWord, rfl, tail₁⟩ := exists_token_of_lexemes_eq_cons same
    obtain ⟨span, afterName, rfl, tail₂⟩ := exists_token_of_lexemes_eq_cons tail₁
    cases initial with
    | false =>
      have unflagged : afterName.keyword? .initial = none :=
        keyword?_eq_none (by rw [tail₂]; exact follows.1)
      exact ⟨.state ⟨⟨name, span⟩, false, ⟨opening.start, afterName.start⟩⟩, afterName,
        by simp [declaration?, state?, name?, unflagged], rfl, tail₂⟩
    | true =>
      obtain ⟨flag, rest, rfl, tail₃⟩ := exists_token_of_lexemes_eq_cons tail₂
      exact ⟨.state ⟨⟨name, span⟩, true, ⟨opening.start, flag.stop⟩⟩, rest,
        by simp [declaration?, state?, name?], rfl, tail₃⟩
  case transition =>
    obtain ⟨opening, afterWord, rfl, tail₁⟩ := exists_token_of_lexemes_eq_cons same
    obtain ⟨nameSpan, afterName, rfl, tail₂⟩ := exists_token_of_lexemes_eq_cons tail₁
    obtain ⟨_, afterFrom, rfl, tail₃⟩ := exists_token_of_lexemes_eq_cons tail₂
    obtain ⟨sourceSpan, afterSource, rfl, tail₄⟩ := exists_token_of_lexemes_eq_cons tail₃
    obtain ⟨_, afterTo, rfl, tail₅⟩ := exists_token_of_lexemes_eq_cons tail₄
    obtain ⟨targetSpan, afterTarget, rfl, tail₆⟩ := exists_token_of_lexemes_eq_cons tail₅
    cases guard with
    | none =>
      have unguarded : afterTarget.keyword? .guard = none :=
        keyword?_eq_none (by rw [tail₆]; exact follows.2)
      exact ⟨.transition ⟨⟨name, nameSpan⟩, ⟨source, sourceSpan⟩, ⟨target, targetSpan⟩, none,
        ⟨opening.start, afterTarget.start⟩⟩, afterTarget,
        by simp [declaration?, transition?, guard?, name?, unguarded], rfl, tail₆⟩
    | some content =>
      obtain ⟨_, afterWhen, rfl, tail₇⟩ := exists_token_of_lexemes_eq_cons tail₆
      obtain ⟨span, rest, rfl, tail₈⟩ := exists_token_of_lexemes_eq_cons tail₇
      exact ⟨.transition ⟨⟨name, nameSpan⟩, ⟨source, sourceSpan⟩, ⟨target, targetSpan⟩,
        some content, ⟨opening.start, span.stop⟩⟩, rest,
        by simp [declaration?, transition?, guard?, quoted?, name?], rfl, tail₈⟩

theorem machine?_eq_some_iff {start : Nat} {stream rest : TokenStream} {machine : MachineDecl} :
    stream.machine? start = some (machine, rest) ↔
      stream = .token ⟨.name machine.name.text, machine.name.span⟩ rest ∧
        machine.span = ⟨start, machine.name.span.stop⟩ := by
  obtain ⟨name, span⟩ := machine
  simp only [machine?, Option.bind_eq_some_iff, Option.some.injEq, Prod.mk.injEq,
    MachineDecl.mk.injEq]
  constructor
  · rintro ⟨⟨found, later⟩, named, ⟨rfl, rfl⟩, rfl⟩
    exact ⟨name?_eq_some_iff.1 named, rfl⟩
  · rintro ⟨rfl, rfl⟩
    exact ⟨(name, rest), name?_eq_some_iff.2 rfl, ⟨rfl, rfl⟩, rfl⟩

end TokenStream

-- Reading is recursion on the tokens, and each item takes at least one of them.
theorem lexemes_of_readAll_settled {stream : TokenStream} {decls : List Declaration}
    (read : readAll .settled stream = some decls) :
    ∃ items : List Item, decls.map Declaration.item? = items.map some ∧ stream.complete = true ∧
      stream.lexemes = items.flatMap Item.lexemes := by
  induction n : stream.lexemes.length using Nat.strongRecOn generalizing stream decls with
  | ind n ih =>
    subst n
    rw [readAll_settled] at read
    split at read
    · next decl rest found =>
      obtain ⟨item, same, lexemes, complete⟩ := TokenStream.lexemes_of_declaration? found
      obtain ⟨more, later, rfl⟩ := Option.map_eq_some_iff.1 read
      have shorter : rest.lexemes.length < stream.lexemes.length := by
        have := item.length_lexemes_pos
        rw [lexemes, List.length_append]
        omega
      obtain ⟨items, tail, ended, covered⟩ := ih _ shorter later rfl
      refine ⟨item :: items, ?_, complete.trans ended, ?_⟩
      · simp [same, tail]
      · rw [lexemes, covered, List.flatMap_cons]
    · next =>
      split at read
      · next ended =>
        obtain ⟨none, complete⟩ := TokenStream.lexemes_eq_nil_of_exhausted ended
        obtain rfl := Option.some.inj read
        exact ⟨[], rfl, complete, none⟩
      · cases read

theorem exists_readAll_settled {stream : TokenStream} (complete : stream.complete = true)
    {items : List Item} (same : stream.lexemes = items.flatMap Item.lexemes) :
    ∃ decls, readAll .settled stream = some decls ∧
      decls.map Declaration.item? = items.map some := by
  induction items generalizing stream with
  | nil =>
    have ended := TokenStream.exhausted_of_lexemes_eq_nil complete same
    cases stream <;> simp_all [TokenStream.exhausted, Stage.finish?]
  | cons item items ih =>
    obtain ⟨decl, rest, found, head, lexemes⟩ :=
      TokenStream.exists_declaration? same (TokenStream.follows_flatMap items)
    obtain ⟨_, _, _, through⟩ := TokenStream.lexemes_of_declaration? found
    obtain ⟨decls, read, tail⟩ := ih (through ▸ complete) lexemes
    refine ⟨decl :: decls, ?_, ?_⟩
    · rw [readAll_settled, found]
      simp [read]
    · simp [head, tail]

theorem findSome?_machine?_eq_none {decls : List Declaration} {items : List Item}
    (same : decls.map Declaration.item? = items.map some) :
    decls.findSome? Declaration.machine? = none := by
  rw [List.findSome?_eq_none_iff]
  intro decl member
  have item := List.mem_map_of_mem (f := Declaration.item?) member
  rw [same] at item
  cases decl with
  | machine => simp [Declaration.item?] at item
  | state | transition => rfl

theorem ofDeclarations_cons_machine (machine : MachineDecl) (decls : List Declaration) :
    Model.ofDeclarations (.machine machine :: decls) =
      { Model.ofDeclarations decls with machine := some machine } := by
  simp only [Model.ofDeclarations, List.findSome?_cons, List.filterMap_cons, Declaration.machine?,
    Declaration.state?, Declaration.transition?]

theorem outline_ofDeclarations {decls : List Declaration} {items : List Item}
    (same : decls.map Declaration.item? = items.map some) (machine : Option MachineDecl) :
    (Model.ofDeclarations ((machine.map Declaration.machine).toList ++ decls)).outline =
      (Program.mk (machine.map fun decl => decl.name.text) items).outline := by
  have read : decls.filterMap Declaration.item? = items := by
    calc decls.filterMap Declaration.item?
        = (decls.map Declaration.item?).filterMap id := by rw [List.filterMap_map, Function.id_comp]
      _ = (items.map some).filterMap id := by rw [same]
      _ = items := by rw [List.filterMap_map, Function.id_comp, List.filterMap_some]
  have states : (decls.filterMap Declaration.state?).map StateDecl.outline =
      items.filterMap Item.state? := by
    rw [← read, List.map_filterMap, List.filterMap_filterMap]
    congr! 2 with decl
    cases decl <;> rfl
  have transitions : (decls.filterMap Declaration.transition?).map TransitionDecl.outline =
      items.filterMap Item.transition? := by
    rw [← read, List.map_filterMap, List.filterMap_filterMap]
    congr! 2 with decl
    cases decl <;> rfl
  have machines := findSome?_machine?_eq_none same
  cases machine with
  | none =>
    simp [Model.ofDeclarations, Model.outline, Program.outline, machines, states, transitions]
  | some decl =>
    rw [Option.map_some, Option.toList_some, List.singleton_append, ofDeclarations_cons_machine]
    simp [Model.ofDeclarations, Model.outline, Program.outline, states, transitions]

-- A machine that goes wrong is no machine, and no other declaration starts with its keyword.
theorem readAll_opening (stream : TokenStream) :
    readAll .opening stream =
      match (stream.keyword? .machine).bind fun (span, rest) => rest.machine? span.start with
      | some (machine, rest) => (readAll .settled rest).map (.machine machine :: ·)
      | none => readAll .settled stream := by
  cases opened : stream.keyword? .machine with
  | none => exact readAll_opening_of_keyword?_eq_none opened
  | some found =>
    obtain ⟨span, rest⟩ := found
    obtain rfl := TokenStream.keyword?_eq_some_iff.1 opened
    rw [readAll_opening_machine]
    dsimp only [Option.bind_some]
    cases rest.machine? span.start with
    | none => rfl
    | some header => rfl

theorem readAll_opening_iff {stream : TokenStream} {outline : Outline} :
    (∃ decls, readAll .opening stream = some decls ∧
        (Model.ofDeclarations decls).outline = outline) ↔
      stream.complete = true ∧
        ∃ program : Program, stream.lexemes = program.lexemes ∧ program.outline = outline := by
  constructor
  · rintro ⟨decls, read, rfl⟩
    cases opened : stream.keyword? .machine with
    | none =>
      rw [readAll_opening_of_keyword?_eq_none opened] at read
      obtain ⟨items, same, complete, lexemes⟩ := lexemes_of_readAll_settled read
      exact ⟨complete, ⟨none, items⟩, lexemes, (outline_ofDeclarations same none).symm⟩
    | some found =>
      obtain ⟨opening, named⟩ := found
      obtain rfl := TokenStream.keyword?_eq_some_iff.1 opened
      rw [readAll_opening_machine] at read
      obtain ⟨⟨machine, rest⟩, header, body⟩ := Option.bind_eq_some_iff.1 read
      obtain ⟨rfl, -⟩ := TokenStream.machine?_eq_some_iff.1 header
      obtain ⟨decls, settled, rfl⟩ := Option.map_eq_some_iff.1 body
      obtain ⟨items, same, complete, lexemes⟩ := lexemes_of_readAll_settled settled
      refine ⟨complete, ⟨machine.name.text, items⟩, ?_, ?_⟩
      · simp [Program.lexemes, lexemes]
      · exact (outline_ofDeclarations same (some machine)).symm
  · rintro ⟨complete, ⟨machine, items⟩, same, rfl⟩
    cases machine with
    | none =>
      obtain ⟨decls, read, mapped⟩ := exists_readAll_settled complete same
      refine ⟨decls, ?_, outline_ofDeclarations mapped none⟩
      rw [readAll_opening_of_keyword?_eq_none, read]
      apply TokenStream.keyword?_eq_none
      rw [same]
      rcases items with _ | ⟨_ | ⟨_, _, _, _⟩, more⟩ <;> simp [Program.lexemes, Item.lexemes]
    | some name =>
      obtain ⟨opening, named, rfl, tail₁⟩ := TokenStream.exists_token_of_lexemes_eq_cons same
      obtain ⟨span, rest, rfl, tail₂⟩ := TokenStream.exists_token_of_lexemes_eq_cons tail₁
      have body : rest.lexemes = items.flatMap Item.lexemes := tail₂
      have ended : rest.complete = true := complete
      obtain ⟨decls, read, mapped⟩ := exists_readAll_settled ended body
      refine ⟨.machine ⟨⟨name, span⟩, ⟨opening.start, span.stop⟩⟩ :: decls, ?_,
        outline_ofDeclarations mapped (some ⟨⟨name, span⟩, ⟨opening.start, span.stop⟩⟩)⟩
      rw [readAll_opening_machine]
      simp [TokenStream.machine?, TokenStream.name?, read]

theorem parse_eq_ok_iff {text : String} {model : Model} :
    Model.parse text = .ok model ↔
      ∃ decls, readAll .opening (TokenStream.ofText text) = some decls ∧
        Model.ofDeclarations decls = model := by
  rw [Model.parse, readAll]
  cases readFrom .opening (TokenStream.ofText text) <;> simp [Except.toOption]

theorem parse_outline_iff {text : String} {outline : Outline} :
    (∃ model, Model.parse text = .ok model ∧ model.outline = outline) ↔
      ∃ pieces, Cuts 0 text.toList pieces ∧
        ∃ program : Program, lexemesOf pieces = program.lexemes ∧
          program.outline = outline := by
  have read : (∃ model, Model.parse text = .ok model ∧ model.outline = outline) ↔
      ∃ decls, readAll .opening (TokenStream.ofText text) = some decls ∧
        (Model.ofDeclarations decls).outline = outline := by
    simp only [parse_eq_ok_iff]
    constructor
    · rintro ⟨_, ⟨decls, found, rfl⟩, same⟩
      exact ⟨decls, found, same⟩
    · rintro ⟨decls, found, same⟩
      exact ⟨_, ⟨decls, found, rfl⟩, same⟩
  rw [read, readAll_opening_iff]
  constructor
  · rintro ⟨complete, program, same, outlined⟩
    obtain ⟨pieces, cut⟩ := exists_cuts_of_complete complete 0
    exact ⟨pieces, cut, program, (cut.scan 0).2.symm.trans same, outlined⟩
  · rintro ⟨pieces, cut, program, same, outlined⟩
    obtain ⟨complete, lexemes⟩ := cut.scan 0
    exact ⟨complete, program, lexemes.trans same, outlined⟩

end FsmWorkbench
