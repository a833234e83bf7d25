import FsmWorkbench.Proofs.Notation.Fronts
import FsmWorkbench.Proofs.Notation.Trying

set_option autoImplicit false

namespace FsmWorkbench

open Grammar TokenStream

-- The rules that the grammar tries in turn where a stage goes on.
def Stage.attempted : Stage → List Rule
  | .opening => [.keyword .machine, .keyword .state, .keyword .transition, .endOfInput]
  | .settled => [.keyword .state, .keyword .transition, .endOfInput]
  | .stateFlag .. => [.keyword .initial, .keyword .state, .keyword .transition, .endOfInput]
  | .guardWord .. => [.keyword .guard, .keyword .state, .keyword .transition, .endOfInput]
  | .machineName _ | .stateName _ | .transitionName _ | .sourceName .. | .targetName .. => [.name]
  | .sourceWord .. => [.keyword .source]
  | .targetWord .. => [.keyword .target]
  | .guardText .. => [.quoted]

theorem Stage.message_attempted (stage : Stage) (offset : Nat) :
    Attempts.message ⟨offset, stage.attempted, []⟩ =
      "expected " ++ alternatives (stage.expected.map Expectation.text) := by
  cases stage <;> cbv

namespace Stage

variable {stage : Stage} {stream : TokenStream}

theorem advance?_eq_none {head : Token} (unfit : head.lexeme.kind ∉ stage.expected) :
    stage.advance? head = none :=
  Option.not_isSome_iff_eq_none.1 fun fits => unfit (isSome_advance?_iff.1 fits)

theorem readFrom_eq_error
    (unfit : ∀ head rest, stream = .token head rest → head.lexeme.kind ∉ stage.expected)
    (unfinished : .endOfInput ∉ stage.expected) :
    readFrom stage stream = .error (stage.fault stream.start) := by
  rcases stream with offset | offset | ⟨head, rest⟩
  · have unended : stage.finish? offset = none :=
      Option.not_isSome_iff_eq_none.1 fun ends => unfinished (isSome_finish?_iff.1 ends)
    rw [readFrom, unended]
    rfl
  · rfl
  · rw [readFrom, advance?_eq_none (unfit head rest rfl)]
    rfl

theorem eq_fault_of_unfit {error : Nat × List Expectation}
    (unfit : ∀ head rest, stream = .token head rest → head.lexeme.kind ∉ stage.expected)
    (failed : readFrom stage stream = .error error) : error = stage.fault stream.start := by
  rcases stream with offset | offset | ⟨head, rest⟩
  · rw [readFrom] at failed
    split at failed
    · cases failed
    · exact (Except.error.inj failed).symm
  · exact (Except.error.inj failed).symm
  · rw [readFrom, advance?_eq_none (unfit head rest rfl)] at failed
    exact (Except.error.inj failed).symm

end Stage

theorem Lexeme.kind_ne_endOfInput (lexeme : Lexeme) : lexeme.kind ≠ .endOfInput := by
  cases lexeme <;> rintro ⟨⟩

theorem kind_ne_of_keyword?_eq_none {head : Token} {rest : TokenStream} {word : Keyword}
    (absent : (TokenStream.token head rest).keyword? word = none) :
    head.lexeme.kind ≠ .keyword word := by
  obtain ⟨found | text | content, span⟩ := head
  · rintro same
    obtain rfl : found = word := by simpa [Lexeme.kind] using same
    rw [keyword?_token] at absent
    cases absent
  · rintro ⟨⟩
  · rintro ⟨⟩

namespace Grammar

-- What has been tried where a declaration may begin, with the stage that reading has come to.
inductive Ready : Stage → TokenStream → Attempts → Prop where
  | settled {stream : TokenStream} {before : Attempts} (behind : before.offset < stream.start) :
      Ready .settled stream before
  | opening {stream : TokenStream} (absent : stream.keyword? .machine = none) :
      Ready .opening stream ⟨stream.start, [.keyword .machine], []⟩
  | flag {stream : TokenStream} (start : Nat) (name : Name)
      (absent : stream.keyword? .initial = none) :
      Ready (.stateFlag start name) stream ⟨stream.start, [.keyword .initial], []⟩
  | guard {stream : TokenStream} (start : Nat) (name source target : Name)
      (absent : stream.keyword? .guard = none) :
      Ready (.guardWord start name source target) stream ⟨stream.start, [.keyword .guard], []⟩
  -- Something further on has failed already, so that nothing here counts any more.
  | stuck {stage last : Stage} {head : Token} {rest : TokenStream} {offset : Nat}
      (further : head.span.start < offset) (other : head.lexeme ≠ .keyword .state)
      (another : head.lexeme ≠ .keyword .transition)
      (fails : readFrom stage (.token head rest) = .error (last.fault offset)) :
      Ready stage (.token head rest) ⟨offset, last.attempted, []⟩

-- How a stage ends: with an error that the attempts tell, or ready for the next declaration.
def Ends (stage : Stage) (stream : TokenStream) (after : Attempts) : Option TokenStream → Prop
  | none => ∃ (last : Stage) (offset : Nat), stream.start ≤ offset ∧
      after = ⟨offset, last.attempted, []⟩ ∧ readFrom stage stream = .error (last.fault offset)
  | some later => ∃ next, Ready next later after ∧
      ∀ error, readFrom stage stream = .error error → readFrom next later = .error error

section Ends

variable {stage next : Stage} {stream rest : TokenStream} {before after : Attempts}

theorem error_of_map {α β ε : Type} {result : Except ε α} {f : α → β} {error : ε}
    (failed : result.map f = .error error) : result = .error error := by
  cases result with
  | error => exact congrArg Except.error (Except.error.inj failed)
  | ok => cases failed

theorem Ends.step {result : Option TokenStream} (ends : Ends next rest after result)
    {f : List Declaration → List Declaration}
    (goes : readFrom stage stream = (readFrom next rest).map f)
    (forth : stream.start < rest.start) :
    Ends stage stream after result := by
  cases result with
  | none =>
    obtain ⟨last, offset, further, told, failed⟩ := ends
    refine ⟨last, offset, by omega, told, ?_⟩
    rw [goes, failed]
    rfl
  | some later =>
    obtain ⟨stage, ready, passes⟩ := ends
    exact ⟨stage, ready, fun error failed => passes error (error_of_map (goes ▸ failed))⟩

theorem Ends.stuck (ends : Ends next rest after none) {head : Token}
    {f : List Declaration → List Declaration}
    (goes : readFrom stage (.token head rest) = (readFrom next rest).map f)
    (forth : head.span.start < rest.start) (other : head.lexeme ≠ .keyword .state)
    (another : head.lexeme ≠ .keyword .transition) : Ready stage (.token head rest) after := by
  obtain ⟨last, offset, further, rfl, failed⟩ := ends
  apply Ready.stuck (Nat.lt_of_lt_of_le forth further) other another
  rw [goes, failed]
  rfl

theorem Ends.fails (ends : Ends next rest after none) {f : List Declaration → List Declaration}
    (goes : readFrom stage stream = (readFrom next rest).map f) (forth : stream.start < rest.start)
    {error : Nat × List Expectation} (failed : readFrom stage stream = .error error) :
    ∃ (last : Stage) (offset : Nat), error = last.fault offset ∧ stream.start < offset ∧
      after = ⟨offset, last.attempted, []⟩ := by
  obtain ⟨last, offset, further, told, fails⟩ := ends
  rw [goes, fails] at failed
  exact ⟨last, offset, (Except.error.inj failed).symm, Nat.lt_of_lt_of_le forth further, told⟩

end Ends

structure Takes {α : Type} (stage : Stage) (read : TokenStream → Option (α × TokenStream))
    (label : Rule) (next : α → Stage) : Prop where
  attempted : stage.attempted = [label]
  unfit : ∀ stream, read stream = none → readFrom stage stream = .error (stage.fault stream.start)
  goes : ∀ stream value rest, read stream = some (value, rest) → ∃ head decls,
    stream = .token head rest ∧ readFrom stage stream = (readFrom (next value) rest).map (decls ++ ·)

theorem takes_name {stage : Stage} {next : Name → Stage} (attempted : stage.attempted = [.name])
    (expects : stage.expected = [.name])
    (fits : ∀ text span, ∃ decls,
      stage.advance? ⟨.name text, span⟩ = some (decls, next ⟨text, span⟩)) :
    Takes stage name? .name next where
  attempted := attempted
  unfit stream absent := by
    apply Stage.readFrom_eq_error
    · rintro ⟨word | text | content, span⟩ rest rfl
      · simp [expects, Lexeme.kind]
      · cases absent
      · simp [expects, Lexeme.kind]
    · simp [expects]
  goes stream name rest found := by
    obtain rfl := name?_eq_some_iff.1 found
    obtain ⟨decls, fits⟩ := fits name.text name.span
    exact ⟨_, decls, rfl, by rw [readFrom, fits]⟩

theorem takes_keyword {stage next : Stage} {word : Keyword}
    (attempted : stage.attempted = [.keyword word]) (expects : stage.expected = [.keyword word])
    (fits : ∀ span, stage.advance? ⟨.keyword word, span⟩ = some ([], next)) :
    Takes stage (keyword? word) (.keyword word) fun _ => next where
  attempted := attempted
  unfit stream absent := by
    apply Stage.readFrom_eq_error
    · rintro head rest rfl
      rw [expects, List.mem_singleton]
      exact kind_ne_of_keyword?_eq_none absent
    · simp [expects]
  goes stream span rest found := by
    obtain rfl := keyword?_eq_some_iff.1 found
    exact ⟨_, [], rfl, by rw [readFrom, fits]⟩

theorem takes_quoted (start : Nat) (name source target : Name) :
    Takes (.guardText start name source target) quoted? .quoted fun _ => .settled where
  attempted := rfl
  unfit stream absent := by
    apply Stage.readFrom_eq_error
    · rintro ⟨word | text | content, span⟩ rest rfl
      · simp [Stage.expected, Lexeme.kind]
      · simp [Stage.expected, Lexeme.kind]
      · cases absent
    · simp [Stage.expected]
  goes stream value rest found := by
    obtain rfl := quoted?_eq_some_iff.1 found
    exact ⟨_, _, rfl, rfl⟩

theorem Takes.ends {α : Type} {stage : Stage} {read : TokenStream → Option (α × TokenStream)}
    {label : Rule} {next : α → Stage} (takes : Takes stage read label next) {stream : TokenStream}
    {before : Attempts} (behind : before.offset < stream.start) (ordered : stream.Ordered)
    {follow : TokenStream → Attempts → Attempts} {result : α → TokenStream → Option TokenStream}
    (ends : ∀ value rest, rest.Ordered → before.offset < rest.start →
      Ends (next value) rest (follow rest before) (result value rest)) :
    Ends stage stream (expect read label follow stream before)
      ((read stream).bind fun found => result found.1 found.2) := by
  rw [expect]
  rcases found : read stream with _ | ⟨value, rest⟩
  · refine ⟨stage, stream.start, Nat.le_refl _, ?_, takes.unfit stream found⟩
    rw [Attempts.miss_of_behind behind, takes.attempted]
  · obtain ⟨head, decls, rfl, goes⟩ := takes.goes stream value rest found
    exact (ends value rest ordered.2 (Nat.lt_trans behind ordered.1)).step goes ordered.1

def done (_ : TokenStream) (before : Attempts) : Attempts := before

def machineTries : TokenStream → Attempts → Attempts :=
  expect (keyword? .machine) (.keyword .machine) (expect name? .name done)

def flagTries : TokenStream → Attempts → Attempts :=
  expect (keyword? .initial) (.keyword .initial) done

def stateTries : TokenStream → Attempts → Attempts :=
  expect name? .name flagTries

def guardTries : TokenStream → Attempts → Attempts :=
  expect (keyword? .guard) (.keyword .guard) (expect quoted? .quoted done)

def transitionTries : TokenStream → Attempts → Attempts :=
  expect name? .name <| expect (keyword? .source) (.keyword .source) <|
    expect name? .name <| expect (keyword? .target) (.keyword .target) <|
      expect name? .name guardTries

section Declarations

variable {stream : TokenStream} {before : Attempts}

theorem ends_done (behind : before.offset < stream.start) :
    Ends .settled stream (done stream before) (some stream) :=
  ⟨.settled, .settled behind, fun _ failed => failed⟩

theorem ends_flag (start : Nat) (name : Name) (behind : before.offset < stream.start)
    (ordered : stream.Ordered) :
    Ends (.stateFlag start name) stream (flagTries stream before)
      (some (((stream.keyword? .initial).map Prod.snd).getD stream)) := by
  rw [flagTries, expect]
  rcases found : stream.keyword? .initial with _ | ⟨span, rest⟩
  · dsimp only
    rw [Attempts.miss_of_behind behind]
    exact ⟨_, .flag start name found, fun _ failed => failed⟩
  · obtain rfl := keyword?_eq_some_iff.1 found
    exact ⟨.settled, .settled (Nat.lt_trans behind ordered.1), fun _ => error_of_map⟩

theorem ends_guard (start : Nat) (name source target : Name) (behind : before.offset < stream.start)
    (ordered : stream.Ordered) :
    Ends (.guardWord start name source target) stream (guardTries stream before)
      (some ((stream.guard?.map Prod.snd).getD stream)) := by
  rw [guardTries, expect, guard?]
  rcases found : stream.keyword? .guard with _ | ⟨span, rest⟩
  · dsimp only
    rw [Attempts.miss_of_behind behind]
    exact ⟨_, .guard start name source target found, fun _ failed => failed⟩
  · obtain rfl := keyword?_eq_some_iff.1 found
    dsimp only [Option.bind_some]
    have text : Ends (.guardText start name source target) rest
        (expect quoted? .quoted done rest before) (rest.quoted?.bind fun found => some found.2) :=
      (takes_quoted start name source target).ends (Nat.lt_trans behind ordered.1) ordered.2
        fun _ _ _ => ends_done
    have goes : readFrom (.guardWord start name source target)
        (.token ⟨.keyword .guard, span⟩ rest) =
        (readFrom (.guardText start name source target) rest).map ([] ++ ·) := rfl
    rcases quoted : rest.quoted? with _ | ⟨⟨content, range⟩, later⟩
    · rw [quoted] at text
      have stuck := text.stuck goes ordered.1 (by simp) (by simp)
      exact ⟨_, stuck, fun _ failed => failed⟩
    · rw [quoted] at text
      obtain ⟨next, ready, passes⟩ := text
      exact ⟨next, ready, fun _ failed => passes _ (error_of_map failed)⟩

theorem ends_state (start : Nat) (behind : before.offset < stream.start)
    (ordered : stream.Ordered) :
    Ends (.stateName start) stream (stateTries stream before)
      ((stream.state? start).map Prod.snd) := by
  have takes : Takes (.stateName start) name? .name (.stateFlag start) :=
    takes_name rfl rfl fun _ _ => ⟨_, rfl⟩
  have ends := takes.ends behind ordered fun name _ ordered behind =>
    ends_flag start name behind ordered
  have same : (stream.state? start).map Prod.snd = stream.name?.bind fun found =>
      some (((found.2.keyword? .initial).map Prod.snd).getD found.2) := by
    rw [state?]
    rcases stream.name? with _ | ⟨name, flagged⟩
    · rfl
    · dsimp only [Option.bind_some]
      cases flagged.keyword? .initial <;> rfl
  rw [same]
  exact ends

theorem transition?_map_rest (start : Nat) (stream : TokenStream) :
    (stream.transition? start).map Prod.snd =
      stream.name?.bind fun named => (named.2.keyword? .source).bind fun left =>
        left.2.name?.bind fun sourced => (sourced.2.keyword? .target).bind fun entered =>
          entered.2.name?.bind fun targeted =>
            some ((targeted.2.guard?.map Prod.snd).getD targeted.2) := by
  rw [transition?]
  rcases stream.name? with _ | ⟨name, leaving⟩
  · rfl
  dsimp only [Option.bind_some]
  rcases leaving.keyword? .source with _ | ⟨_, sourced⟩
  · rfl
  dsimp only [Option.bind_some]
  rcases sourced.name? with _ | ⟨source, entering⟩
  · rfl
  dsimp only [Option.bind_some]
  rcases entering.keyword? .target with _ | ⟨_, targeted⟩
  · rfl
  dsimp only [Option.bind_some]
  rcases targeted.name? with _ | ⟨target, guarded⟩
  · rfl
  dsimp only [Option.bind_some]
  cases guarded.guard? <;> rfl

theorem takes_transitionName (start : Nat) :
    Takes (.transitionName start) name? .name (.sourceWord start) :=
  takes_name rfl rfl fun _ _ => ⟨_, rfl⟩

theorem takes_sourceWord (start : Nat) (name : Name) :
    Takes (.sourceWord start name) (keyword? .source) (.keyword .source)
      fun _ => .sourceName start name :=
  takes_keyword rfl rfl fun _ => rfl

theorem takes_sourceName (start : Nat) (name : Name) :
    Takes (.sourceName start name) name? .name (.targetWord start name) :=
  takes_name rfl rfl fun _ _ => ⟨_, rfl⟩

theorem takes_targetWord (start : Nat) (name source : Name) :
    Takes (.targetWord start name source) (keyword? .target) (.keyword .target)
      fun _ => .targetName start name source :=
  takes_keyword rfl rfl fun _ => rfl

theorem takes_targetName (start : Nat) (name source : Name) :
    Takes (.targetName start name source) name? .name (.guardWord start name source) :=
  takes_name rfl rfl fun _ _ => ⟨_, rfl⟩

theorem ends_transition (start : Nat) (behind : before.offset < stream.start)
    (ordered : stream.Ordered) :
    Ends (.transitionName start) stream (transitionTries stream before)
      ((stream.transition? start).map Prod.snd) := by
  have targeted (name source : Name) {stream : TokenStream} (ordered : stream.Ordered)
      (behind : before.offset < stream.start) :=
    (takes_targetName start name source).ends behind ordered fun target _ ordered behind =>
      ends_guard start name source target behind ordered
  have entered (name source : Name) {stream : TokenStream} (ordered : stream.Ordered)
      (behind : before.offset < stream.start) :=
    (takes_targetWord start name source).ends behind ordered fun _ _ => targeted name source
  have sourced (name : Name) {stream : TokenStream} (ordered : stream.Ordered)
      (behind : before.offset < stream.start) :=
    (takes_sourceName start name).ends behind ordered fun source _ => entered name source
  have left (name : Name) {stream : TokenStream} (ordered : stream.Ordered)
      (behind : before.offset < stream.start) :=
    (takes_sourceWord start name).ends behind ordered fun _ _ => sourced name
  rw [transition?_map_rest]
  exact (takes_transitionName start).ends behind ordered fun name _ => left name

def declarationTries (stream : TokenStream) (before : Attempts) : Attempts :=
  let after := expect (keyword? .state) (.keyword .state) stateTries stream before
  match (stream.keyword? .state).bind fun (span, rest) => rest.state? span.start with
  | none => expect (keyword? .transition) (.keyword .transition) transitionTries stream after
  | some _ => after

-- Where no declaration begins, all that could come there has been tried, or something further on.
theorem Ready.fails {stage : Stage} (ready : Ready stage stream before)
    (state : stream.keyword? .state = none) (transition : stream.keyword? .transition = none)
    {error : Nat × List Expectation} (failed : readFrom stage stream = .error error) :
    ∃ (last : Stage) (offset : Nat), error = last.fault offset ∧
      ((before.miss stream.start (.keyword .state)).miss stream.start (.keyword .transition)).miss
        stream.start .endOfInput = ⟨offset, last.attempted, []⟩ := by
  have here (tried : List Rule) :
      (((Attempts.mk stream.start tried []).miss stream.start (.keyword .state)).miss stream.start
        (.keyword .transition)).miss stream.start .endOfInput =
          ⟨stream.start, tried ++ [.keyword .state, .keyword .transition, .endOfInput], []⟩ := by
    simp only [Attempts.miss_here, List.append_assoc, List.cons_append, List.nil_append]
  have unfit (stage : Stage) (others : List Keyword)
      (expects : stage.expected = .endOfInput :: others.map .keyword)
      (absent : ∀ word ∈ others, stream.keyword? word = none) :
      ∀ head rest, stream = .token head rest → head.lexeme.kind ∉ stage.expected := by
    rintro head rest rfl
    rw [expects, List.mem_cons, List.mem_map]
    rintro (ended | ⟨word, member, same⟩)
    · exact head.lexeme.kind_ne_endOfInput ended
    · exact kind_ne_of_keyword?_eq_none (absent word member) same.symm
  cases ready with
  | settled behind =>
    refine ⟨.settled, stream.start,
      Stage.eq_fault_of_unfit (unfit .settled [.state, .transition] rfl ?_) failed, ?_⟩
    · simp [state, transition]
    · rw [Attempts.miss_of_behind behind, Attempts.miss_here, Attempts.miss_here]
      rfl
  | opening absent =>
    refine ⟨.opening, stream.start,
      Stage.eq_fault_of_unfit (unfit .opening [.machine, .state, .transition] rfl ?_) failed,
      here _⟩
    simp [absent, state, transition]
  | flag start name absent =>
    refine ⟨.stateFlag start name, stream.start,
      Stage.eq_fault_of_unfit (unfit _ [.state, .transition, .initial] rfl ?_) failed,
      here _⟩
    simp [absent, state, transition]
  | guard start name source target absent =>
    refine ⟨.guardWord start name source target, stream.start,
      Stage.eq_fault_of_unfit (unfit _ [.state, .transition, .guard] rfl ?_) failed,
      here _⟩
    simp [absent, state, transition]
  | @stuck _ last head rest offset further _ _ fails =>
    refine ⟨last, offset, Except.error.inj (failed.symm.trans fails), ?_⟩
    have still (label : Rule) :
        (Attempts.mk offset last.attempted []).miss head.span.start label =
          ⟨offset, last.attempted, []⟩ := Attempts.miss_of_lt further
    rw [TokenStream.start, still, still, still]

theorem Ready.begins {stage : Stage} (ready : Ready stage stream before) {word : Keyword}
    {next : Nat → Stage}
    (opens : (word, next) = (.state, .stateName) ∨ (word, next) = (.transition, .transitionName))
    {span : Span} {rest : TokenStream} (same : stream = .token ⟨.keyword word, span⟩ rest) :
    before.offset ≤ span.start ∧
      ∃ decls, readFrom stage stream = (readFrom (next span.start) rest).map (decls ++ ·) := by
  cases ready with
  | settled behind =>
    subst same
    refine ⟨Nat.le_of_lt behind, [], ?_⟩
    rcases opens with ⟨⟨⟩⟩ | ⟨⟨⟩⟩ <;> rfl
  | opening =>
    subst same
    refine ⟨Nat.le_refl _, [], ?_⟩
    rcases opens with ⟨⟨⟩⟩ | ⟨⟨⟩⟩ <;> rfl
  | flag start name =>
    subst same
    refine ⟨Nat.le_refl _, [.state ⟨name, false, ⟨start, span.start⟩⟩], ?_⟩
    rcases opens with ⟨⟨⟩⟩ | ⟨⟨⟩⟩ <;> rfl
  | guard start name source target =>
    subst same
    refine ⟨Nat.le_refl _, [.transition ⟨name, source, target, none, ⟨start, span.start⟩⟩], ?_⟩
    rcases opens with ⟨⟨⟩⟩ | ⟨⟨⟩⟩ <;> rfl
  | stuck further other another =>
    obtain ⟨rfl, rfl⟩ := TokenStream.token.inj same
    rcases opens with ⟨⟨⟩⟩ | ⟨⟨⟩⟩
    · exact absurd rfl other
    · exact absurd rfl another

theorem Ready.declaration {stage : Stage} (ready : Ready stage stream before)
    (ordered : stream.Ordered) :
    match stream.declaration? with
    | some (_, later) => ∃ next, Ready next later (declarationTries stream before) ∧
        ∀ error, readFrom stage stream = .error error → readFrom next later = .error error
    | none => ∀ error, readFrom stage stream = .error error →
        ∃ (last : Stage) (offset : Nat), error = last.fault offset ∧
          (declarationTries stream before).miss stream.start .endOfInput =
            ⟨offset, last.attempted, []⟩ := by
  rcases state : stream.keyword? .state with _ | ⟨span, rest⟩
  · rcases transition : stream.keyword? .transition with _ | ⟨span, rest⟩
    · have none : stream.declaration? = none := by
        rcases stream with offset | offset | ⟨⟨found | text | content, span⟩, rest⟩
        case token.keyword => cases found <;> simp_all [declaration?, keyword?]
        all_goals rfl
      rw [none]
      intro error failed
      simp only [declarationTries, expect, state, transition, Option.bind_none]
      exact ready.fails state transition failed
    · obtain rfl := keyword?_eq_some_iff.1 transition
      obtain ⟨reached, decls, goes⟩ := ready.begins (.inr rfl) rfl
      have here : (before.miss span.start (.keyword .state)).offset = span.start :=
        Attempts.offset_miss_of_le reached
      have ends := ends_transition span.start (here ▸ ordered.1) ordered.2
      simp only [declarationTries, expect, state, transition, Option.bind_none, declaration?]
      cases found : rest.transition? span.start with
      | none =>
        rw [found] at ends
        intro error failed
        obtain ⟨last, offset, same, further, told⟩ := ends.fails goes ordered.1 failed
        rw [TokenStream.start] at further ⊢
        exact ⟨last, offset, same, by rw [told, Attempts.miss_of_lt further]⟩
      | some read =>
        rw [found] at ends
        exact ends.step goes ordered.1
  · obtain rfl := keyword?_eq_some_iff.1 state
    obtain ⟨reached, decls, goes⟩ := ready.begins (.inl rfl) rfl
    have ends := ends_state span.start (Nat.lt_of_le_of_lt reached ordered.1) ordered.2
    simp only [declarationTries, expect, state, Option.bind_some, declaration?]
    cases found : rest.state? span.start with
    | none =>
      rw [found] at ends
      intro error failed
      obtain ⟨last, offset, same, further, told⟩ := ends.fails goes ordered.1 failed
      have other : (token ⟨.keyword .state, span⟩ rest).keyword? .transition = none := rfl
      have still (label : Rule) : (Attempts.mk offset last.attempted []).miss span.start label =
          ⟨offset, last.attempted, []⟩ := Attempts.miss_of_lt further
      refine ⟨last, offset, same, ?_⟩
      rw [other, told, TokenStream.start]
      dsimp only
      rw [still, still]
    | some read =>
      rw [found] at ends
      exact ends.step goes ordered.1

theorem takes_machineName (start : Nat) :
    Takes (.machineName start) name? .name fun _ => .settled :=
  takes_name rfl rfl fun _ _ => ⟨_, rfl⟩

theorem ready_machine (ordered : stream.Ordered) :
    match (stream.keyword? .machine).bind fun (span, rest) => rest.machine? span.start with
    | some (_, later) => Ready .settled later (machineTries stream .start) ∧
        ∀ error, readFrom .opening stream = .error error → readFrom .settled later = .error error
    | none => Ready .opening stream (machineTries stream .start) := by
  rw [machineTries, expect]
  rcases found : stream.keyword? .machine with _ | ⟨span, rest⟩
  · dsimp only [Option.bind_none]
    rw [Attempts.start_miss]
    exact .opening found
  · obtain rfl := keyword?_eq_some_iff.1 found
    have goes : readFrom .opening (.token ⟨.keyword .machine, span⟩ rest) =
        (readFrom (.machineName span.start) rest).map ([] ++ ·) := rfl
    have named : Ends (.machineName span.start) rest (expect name? .name done rest .start)
        (rest.name?.bind fun found => some found.2) :=
      (takes_machineName span.start).ends (Nat.zero_lt_of_lt ordered.1) ordered.2
        fun _ _ _ => ends_done
    dsimp only [Option.bind_some, machine?]
    rcases name : rest.name? with _ | ⟨text, later⟩
    · rw [name] at named
      exact named.stuck goes ordered.1 (by simp) (by simp)
    · obtain rfl := name?_eq_some_iff.1 name
      dsimp only [Option.bind_some]
      rw [expect, name]
      refine ⟨.settled (Nat.zero_lt_of_lt ordered.2.1), fun error failed => ?_⟩
      exact error_of_map (error_of_map failed)

end Declarations

end Grammar

end FsmWorkbench
