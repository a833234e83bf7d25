import FsmWorkbench.Proofs.Notation.Words
import Mathlib

set_option autoImplicit false

namespace FsmWorkbench

open Text

namespace TokenStream

def prepend (tokens : List Token) (stream : TokenStream) : TokenStream :=
  tokens.foldr token stream

@[simp] theorem prepend_nil (stream : TokenStream) : stream.prepend [] = stream := rfl

@[simp] theorem prepend_cons (head : Token) (tokens : List Token) (stream : TokenStream) :
    stream.prepend (head :: tokens) = token head (stream.prepend tokens) := rfl

theorem prepend_append (first second : List Token) (stream : TokenStream) :
    stream.prepend (first ++ second) = (stream.prepend second).prepend first :=
  List.foldr_append

theorem scan_quoted {offset : Nat} {content after : List Char}
    (inside : ∀ c ∈ content, isQuotable c = true) :
    scan offset ('"' :: (content ++ '"' :: after)) =
      .token ⟨.quoted (String.ofList content), ⟨offset, offset + size ('"' :: content) + 1⟩⟩
        (scan (offset + size ('"' :: content) + 1) after) := by
  have stop : ∀ c ∈ ('"' :: after).head?, isQuotable c = false := by
    simp [isQuotable]
  rw [scan_quote, List.takeWhile_append_of_pos inside, takeWhile_eq_nil stop,
    List.dropWhile_append_of_pos inside, dropWhile_eq_self stop, List.append_nil]
  rfl

end TokenStream

-- Whatever follows the front, if it starts on a line of its own.
def Begins (offset : Nat) (front : List Char) (tokens : List Token) : Prop :=
  ∀ rest : List Char, (∀ c ∈ rest.head?, c = '\n') →
    TokenStream.scan offset (front ++ rest) =
      (TokenStream.scan (offset + size front) rest).prepend tokens

namespace Begins

variable {offset : Nat} {front : List Char} {tokens : List Token}

theorem nil (offset : Nat) : Begins offset [] [] := by
  intro rest _
  rfl

-- What comes behind a longest run still ends it, as a line feed is never part of one.
theorem ends {p : Char → Bool} (feed : p '\n' = false) (stops : ∀ c ∈ front.head?, p c = false)
    {rest : List Char} (line : ∀ c ∈ rest.head?, c = '\n') :
    ∀ c ∈ (front ++ rest).head?, p c = false := by
  intro c head
  cases front with
  | nil => rw [line c head, feed]
  | cons first more => exact stops c head

theorem separator {c : Char} (separates : isSeparator c = true)
    (after : Begins (offset + c.utf8Size) front tokens) : Begins offset (c :: front) tokens := by
  intro rest line
  rw [List.cons_append, TokenStream.scan_separator separates, after rest line, size_cons,
    Nat.add_assoc]

theorem comment {body : List Char} (inside : ∀ c ∈ body, isCommentPart c = true)
    (stops : ∀ c ∈ front.head?, isCommentPart c = false)
    (after : Begins (offset + size ('/' :: '/' :: body)) front tokens) :
    Begins offset ('/' :: '/' :: body ++ front) tokens := by
  intro rest line
  have stop := ends (by decide) stops line
  rw [List.append_assoc, List.cons_append, List.cons_append, TokenStream.scan_comment,
    List.takeWhile_append_of_pos inside, takeWhile_eq_nil stop,
    List.dropWhile_append_of_pos inside, dropWhile_eq_self stop, List.append_nil, after rest line,
    size_append, Nat.add_assoc]

theorem word {first : Char} {more : List Char} (starts : isWordStart first = true)
    (inside : ∀ c ∈ more, isWordPart c = true) (stops : ∀ c ∈ front.head?, isWordPart c = false)
    (after : Begins (offset + size (first :: more)) front tokens) :
    Begins offset (first :: more ++ front)
      (⟨.ofWord (String.ofList (first :: more)), ⟨offset, offset + size (first :: more)⟩⟩ ::
        tokens) := by
  intro rest line
  have stop := ends (by decide) stops line
  rw [List.append_assoc, List.cons_append, TokenStream.scan_word starts,
    List.takeWhile_append_of_pos inside, takeWhile_eq_nil stop,
    List.dropWhile_append_of_pos inside, dropWhile_eq_self stop, List.append_nil]
  dsimp only
  rw [after rest line, size_append, Nat.add_assoc, TokenStream.prepend_cons]

theorem quoted {content : List Char} (inside : ∀ c ∈ content, isQuotable c = true)
    (after : Begins (offset + size ('"' :: content) + 1) front tokens) :
    Begins offset ('"' :: content ++ '"' :: front)
      (⟨.quoted (String.ofList content), ⟨offset, offset + size ('"' :: content) + 1⟩⟩ ::
        tokens) := by
  intro rest line
  rw [List.append_assoc, List.cons_append, List.cons_append, TokenStream.scan_quoted inside,
    after rest line, size_append, size_cons '"' front, TokenStream.prepend_cons,
    show '"'.utf8Size = 1 from rfl]
  simp only [Nat.add_assoc]

theorem line {more : List Char} {others : List Token} (begun : Begins offset front tokens)
    (after : Begins (offset + size front + 1) more others) :
    Begins offset (front ++ '\n' :: more) (tokens ++ others) := by
  intro rest line
  rw [List.append_assoc, List.cons_append, begun _ (by simp),
    TokenStream.scan_separator (by decide), show '\n'.utf8Size = 1 from rfl, after rest line,
    TokenStream.prepend_append, size_append, size_cons, show '\n'.utf8Size = 1 from rfl]
  simp only [Nat.add_assoc]

end Begins

namespace Stage

def after? (stage : Stage) (tokens : List Token) : Option Stage :=
  tokens.foldlM (fun stage token => (stage.advance? token).map Prod.snd) stage

@[simp] theorem after?_nil (stage : Stage) : stage.after? [] = some stage := rfl

@[simp] theorem after?_cons (stage : Stage) (head : Token) (tokens : List Token) :
    stage.after? (head :: tokens) =
      ((stage.advance? head).map Prod.snd).bind fun next => next.after? tokens := rfl

theorem after?_append (stage : Stage) (first second : List Token) :
    stage.after? (first ++ second) = (stage.after? first).bind fun next => next.after? second :=
  List.foldlM_append

end Stage

theorem Begins.tokens_eq_nil {tokens : List Token} (begun : Begins 0 [] tokens) : tokens = [] := by
  have none := begun [] (by simp)
  cases tokens with
  | nil => rfl
  | cons => simp at none

theorem isSome_readAll_prepend {stage : Stage} {tokens : List Token} {stream : TokenStream} :
    (readAll stage (stream.prepend tokens)).isSome = true ↔
      ∃ last, stage.after? tokens = some last ∧ (readAll last stream).isSome = true := by
  induction tokens generalizing stage with
  | nil => simp
  | cons head tokens ih =>
    rw [TokenStream.prepend_cons, readAll_token, Stage.after?_cons]
    cases stage.advance? head with
    | none => simp
    | some step => simp [ih]

theorem stops_of_dropWhile {p : Char → Bool} {cs front rest : List Char}
    (same : cs.dropWhile p = front ++ rest) : ∀ c ∈ front.head?, p c = false := by
  intro c head
  have first : c ∈ (cs.dropWhile p).head? := by
    rw [same, List.head?_append, Option.mem_def.1 head]
    rfl
  exact eq_false_of_mem_head?_dropWhile first

theorem Stage.fst_fault (stage : Stage) (offset : Nat) : (stage.fault offset).1 = offset := by
  rw [Stage.fault]
  split <;> rfl

theorem readFrom_token_eq_error {stage : Stage} {head : Token} {rest : TokenStream}
    {fault : Nat × List Expectation} (failed : readFrom stage (.token head rest) = .error fault) :
    fault = stage.fault head.span.start ∨
      ∃ next, (stage.advance? head).map Prod.snd = some next ∧
        readFrom next rest = .error fault := by
  rw [readFrom] at failed
  split at failed
  · next decls next fits =>
    refine .inr ⟨next, by rw [fits]; rfl, ?_⟩
    cases read : readFrom next rest with
    | ok later => rw [read] at failed; cases failed
    | error found => rw [read] at failed; exact congrArg _ (Except.error.inj failed)
  · exact .inl (Except.error.inj failed).symm

theorem exists_begins_of_readFrom_eq_error {stage : Stage} {offset : Nat} {cs : List Char}
    {fault : Nat × List Expectation}
    (failed : readFrom stage (TokenStream.scan offset cs) = .error fault) :
    ∃ front rest tokens last, cs = front ++ rest ∧ Begins offset front tokens ∧
      stage.after? tokens = some last ∧ fault = last.fault (offset + size front) := by
  have here {stage : Stage} {offset : Nat} {cs : List Char} (same : fault = stage.fault offset) :
      ∃ front rest tokens last, cs = front ++ rest ∧ Begins offset front tokens ∧
        stage.after? tokens = some last ∧ fault = last.fault (offset + size front) :=
    ⟨[], cs, [], stage, rfl, .nil offset, rfl, same⟩
  fun_induction TokenStream.scan offset cs generalizing stage with
  | case1 offset =>
    rw [readFrom] at failed
    split at failed
    · cases failed
    · exact here (Except.error.inj failed).symm
  | case2 offset c rest separates ih =>
    obtain ⟨front, rest, tokens, last, rfl, begun, reached, rfl⟩ := ih failed
    exact ⟨c :: front, rest, tokens, last, rfl, begun.separator separates, reached, by
      rw [size_cons, Nat.add_assoc]⟩
  | case3 offset c rest _ slashes ih =>
    obtain ⟨rfl, second⟩ := slashes
    obtain ⟨more, rfl⟩ := List.head?_eq_some_iff.1 second
    obtain ⟨front, after, tokens, last, same, begun, reached, rfl⟩ := ih failed
    have part : isCommentPart '/' = true := by decide
    rw [List.takeWhile_cons_of_pos part] at begun ⊢
    rw [List.dropWhile_cons_of_pos part] at same
    refine ⟨'/' :: '/' :: more.takeWhile isCommentPart ++ front, after, tokens, last, ?_,
      .comment (fun _ => eq_true_of_mem_takeWhile) (stops_of_dropWhile same) begun, reached, ?_⟩
    · rw [List.append_assoc, ← same, List.cons_append, List.cons_append,
        List.takeWhile_append_dropWhile]
    · rw [size_append, Nat.add_assoc]
  | case4 offset c rest _ _ starts word =>
    next ih =>
    rcases readFrom_token_eq_error failed with same | ⟨next, fits, failed⟩
    · exact here same
    obtain ⟨front, after, tokens, last, same, begun, reached, rfl⟩ := ih failed
    refine ⟨word ++ front, after, _, last, ?_,
      .word starts (fun _ => eq_true_of_mem_takeWhile) (stops_of_dropWhile same) begun, ?_, ?_⟩
    · rw [List.append_assoc, ← same, List.cons_append, List.takeWhile_append_dropWhile]
    · rw [Stage.after?_cons, fits]
      exact reached
    · rw [size_append, Nat.add_assoc]
  | case5 offset rest content after hrest _ _ _ next =>
    next ih =>
    rcases readFrom_token_eq_error failed with same | ⟨stage, fits, failed⟩
    · exact here same
    obtain ⟨front, after, tokens, last, rfl, begun, reached, rfl⟩ := ih failed
    refine ⟨'"' :: content ++ '"' :: front, after, _, last, ?_,
      .quoted (fun _ => eq_true_of_mem_takeWhile) begun, ?_, ?_⟩
    · rw [List.append_assoc, List.cons_append, List.cons_append, ← hrest,
        List.takeWhile_append_dropWhile]
    · rw [Stage.after?_cons, fits]
      exact reached
    · rw [size_append, size_cons '"' front, show '"'.utf8Size = 1 from rfl]
      simp only [next, Nat.add_assoc]
  | case6 => exact here (Except.error.inj failed).symm
  | case7 => exact here (Except.error.inj failed).symm

def Lexeme.kind : Lexeme → Expectation
  | .keyword word => .keyword word
  | .name _ => .name
  | .quoted _ => .quoted

namespace Stage

theorem isSome_advance?_iff {stage : Stage} {token : Token} :
    (stage.advance? token).isSome = true ↔ token.lexeme.kind ∈ stage.expected := by
  obtain ⟨lexeme, span⟩ := token
  rcases lexeme with word | text | content
  case keyword => cases word <;> cases stage <;> simp [advance?, expected, finish?, Lexeme.kind]
  all_goals cases stage <;> simp [advance?, expected, Lexeme.kind]

theorem isSome_finish?_iff {stage : Stage} {offset : Nat} :
    (stage.finish? offset).isSome = true ↔ .endOfInput ∈ stage.expected := by
  cases stage <;> simp [finish?, expected]

def ending : Stage → String
  | .opening | .settled | .stateFlag .. | .guardWord .. => ""
  | .machineName _ | .stateName _ | .targetName .. => "a"
  | .targetWord .. => "to a"
  | .sourceName .. => "a to a"
  | .sourceWord .. => "from a to a"
  | .transitionName _ => "a from a to a"
  | .guardText .. => "\"\""

theorem isSome_readAll_ending (stage : Stage) (offset : Nat) :
    (readAll stage (TokenStream.scan offset ('\n' :: stage.ending.toList))).isSome = true := by
  cases stage <;> cbv

end Stage

end FsmWorkbench
