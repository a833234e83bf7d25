import FsmWorkbench.Proofs.Notation.Furthest
import FsmWorkbench.Proofs.Text.Places

set_option autoImplicit false

namespace FsmWorkbench

open Text

/-- Some text that starts like this is read. -/
def Viable (front : List Char) : Prop :=
  ∃ more model, Model.parse (String.ofList (front ++ more)) = .ok model

theorem Viable.of_append {front rest : List Char} (viable : Viable (front ++ rest)) :
    Viable front := by
  obtain ⟨more, model, read⟩ := viable
  exact ⟨rest ++ more, model, by rw [← List.append_assoc]; exact read⟩

inductive Spells : Expectation → List Char → Prop where
  | keyword (word : Keyword) : Spells (.keyword word) word.text.toList
  | name {first : Char} {more : List Char} (starts : isWordStart first = true)
      (inside : ∀ c ∈ more, isWordPart c = true)
      (free : ∀ word : Keyword, String.ofList (first :: more) ≠ word.text) :
      Spells .name (first :: more)
  | quoted {content : List Char} (inside : ∀ c ∈ content, isQuotable c = true) :
      Spells .quoted ('"' :: content ++ ['"'])

namespace Spells

variable {kind : Expectation} {spelling : List Char}

theorem exists_begins (spelled : Spells kind spelling) (offset : Nat) :
    ∃ token : Token, token.lexeme.kind = kind ∧ Begins offset spelling [token] := by
  cases spelled with
  | keyword word =>
    obtain ⟨first, more, text, starts⟩ := Grammar.exists_cons_text word
    have inside : ∀ c ∈ more, isWordPart c = true := by
      intro c member
      have within : c ∈ word.text.toList := text ▸ List.mem_cons_of_mem _ member
      exact Grammar.isWordPart_of_mem_text within
    have begun := Begins.word starts inside (by simp) (.nil (offset + size (first :: more)))
    rw [← text, List.append_nil] at begun
    refine ⟨_, ?_, begun⟩
    rw [Lexeme.ofWord_eq_keyword_iff.2 String.ofList_toList, Lexeme.kind]
  | @name first more starts inside free =>
    have begun := Begins.word starts inside (by simp) (.nil (offset + size (first :: more)))
    rw [List.append_nil] at begun
    refine ⟨_, ?_, begun⟩
    rw [Lexeme.ofWord_eq_name_iff.2 ⟨rfl, free⟩, Lexeme.kind]
  | quoted inside => exact ⟨_, rfl, .quoted inside (.nil _)⟩

end Spells

theorem exists_parse_eq_ok_iff {cs : List Char} :
    (∃ model, Model.parse (String.ofList cs) = .ok model) ↔
      (readAll .opening (TokenStream.scan 0 cs)).isSome = true := by
  rw [Option.isSome_iff_exists]
  simp only [parse_eq_ok_iff, TokenStream.ofText, String.toList_ofList]
  constructor
  · rintro ⟨_, decls, read, rfl⟩
    exact ⟨decls, read⟩
  · rintro ⟨decls, read⟩
    exact ⟨_, decls, read, rfl⟩

namespace Begins

variable {front : List Char} {tokens : List Token} {last : Stage}

theorem exists_parse_append_iff (begun : Begins 0 front tokens) {rest : List Char}
    (line : ∀ c ∈ rest.head?, c = '\n') :
    (∃ model, Model.parse (String.ofList (front ++ rest)) = .ok model) ↔
      ∃ last, Stage.opening.after? tokens = some last ∧
        (readAll last (TokenStream.scan (size front) rest)).isSome = true := by
  rw [exists_parse_eq_ok_iff, begun rest line, isSome_readAll_prepend, Nat.zero_add]

theorem viable_line_iff (begun : Begins 0 front tokens) :
    Viable (front ++ ['\n']) ↔ (Stage.opening.after? tokens).isSome = true := by
  have append (more : List Char) : front ++ ['\n'] ++ more = front ++ '\n' :: more := by simp
  simp only [Viable, append]
  constructor
  · rintro ⟨more, parsed⟩
    obtain ⟨last, reached, -⟩ := (begun.exists_parse_append_iff (by simp)).1 parsed
    rw [reached]
    rfl
  · intro fits
    obtain ⟨last, reached⟩ := Option.isSome_iff_exists.1 fits
    exact ⟨last.ending.toList, (begun.exists_parse_append_iff (by simp)).2
      ⟨last, reached, last.isSome_readAll_ending _⟩⟩

theorem viable_spelling_iff (begun : Begins 0 front tokens)
    (reached : Stage.opening.after? tokens = some last) {kind : Expectation}
    {spelling : List Char} (spelled : Spells kind spelling) :
    Viable (front ++ '\n' :: spelling ++ ['\n']) ↔ kind ∈ last.expected := by
  obtain ⟨token, rfl, next⟩ := spelled.exists_begins (0 + size front + 1)
  rw [(begun.line next).viable_line_iff, Stage.after?_append, reached, Option.bind_some,
    ← Stage.isSome_advance?_iff]
  cases fits : last.advance? token <;> simp [Stage.after?_cons, fits]

theorem ended_iff (begun : Begins 0 front tokens)
    (reached : Stage.opening.after? tokens = some last) :
    (∃ model, Model.parse (String.ofList front) = .ok model) ↔ .endOfInput ∈ last.expected := by
  have nothing : ∀ c ∈ [].head?, c = '\n' := by simp
  have whole := begun.exists_parse_append_iff nothing
  rw [List.append_nil] at whole
  simp [whole, reached, Stage.isSome_finish?_iff]

end Begins

namespace Expectation

def all : List Expectation :=
  [.endOfInput, .document, .name, .quoted] ++ Keyword.all.map .keyword

theorem mem_all (kind : Expectation) : kind ∈ all := by
  cases kind <;> simp [all, Keyword.mem_all]

end Expectation

namespace Stage

def wordings : List (List Expectation) :=
  [.opening, .settled, .stateFlag 0 default, .guardWord 0 default default default, .stateName 0,
    .sourceWord 0 default, .targetWord 0 default default,
    .guardText 0 default default default].map expected

theorem expected_mem_wordings (stage : Stage) : stage.expected ∈ wordings := by
  cases stage <;> simp [wordings, expected]

end Stage

namespace ParseError

/-- The message of the error has the text of the kind in it. -/
def Names (error : ParseError) (kind : Expectation) : Prop :=
  kind.text.toList <:+: error.message.toList

instance (error : ParseError) (kind : Expectation) : Decidable (error.Names kind) :=
  inferInstanceAs (Decidable (kind.text.toList <:+: error.message.toList))

-- No kind is named by what stands between others or by a part of another.
theorem infix_alternatives_iff : ∀ kinds ∈ Stage.wordings, ∀ kind ∈ Expectation.all,
    kind.text.toList <:+: ("expected " ++ alternatives (kinds.map Expectation.text)).toList ↔
      kind ∈ kinds := by
  decide +kernel

theorem names_iff {error : ParseError} {stage : Stage} (expects : error.expected = stage.expected)
    {kind : Expectation} : error.Names kind ↔ kind ∈ stage.expected := by
  rw [Names, message, expects]
  exact infix_alternatives_iff _ stage.expected_mem_wordings kind kind.mem_all

end ParseError

theorem fault_of_parse_eq_error {text : String} {error : ParseError}
    (failed : Model.parse text = .error error) :
    ∃ front rest tokens last, text.toList = front ++ rest ∧ Begins 0 front tokens ∧
      Stage.opening.after? tokens = some last ∧
      (error.offset, error.expected) = last.fault (size front) ∧
      (error.line, error.column) = lineColumnOf (front ++ rest) (size front) := by
  rw [Model.parse] at failed
  split at failed
  · cases failed
  · next offset expected fault =>
    obtain rfl := Except.error.inj failed
    obtain ⟨front, rest, tokens, last, same, begun, reached, stopped⟩ :=
      exists_begins_of_readFrom_eq_error fault
    rw [Nat.zero_add] at stopped
    have place : offset = size front := (congrArg Prod.fst stopped).trans (last.fst_fault _)
    refine ⟨front, rest, tokens, last, same, begun, reached, stopped, ?_⟩
    rw [← same, ← place]
    rfl

theorem parse_fault_exact {text : String} {error : ParseError}
    (failed : Model.parse text = .error error) :
    (∃ attempts, Grammar.fault? text = some attempts ∧ attempts.offset = error.offset ∧
      attempts.message = error.message) ∧
    ∃ front rest, text.toList = front ++ rest ∧ size front = error.offset ∧
      error.line = front.count '\n' + 1 ∧
      error.column = (front.reverse.takeWhile (· != '\n')).length + 1 ∧
      Viable front ∧
      (error.offset = 0 → error.message = "expected program") ∧
      (error.offset ≠ 0 →
        (∀ kind spelling, Spells kind spelling →
          (error.Names kind ↔ Viable (front ++ '\n' :: spelling ++ ['\n']))) ∧
        (error.Names .endOfInput ↔ ∃ model, Model.parse (String.ofList front) = .ok model) ∧
        ¬error.Names .document) := by
  refine ⟨Grammar.fault?_of_parse_eq_error failed, ?_⟩
  obtain ⟨front, rest, tokens, last, same, begun, reached, fault, located⟩ :=
    fault_of_parse_eq_error failed
  rw [lineColumnOf_size] at located
  obtain ⟨line, column⟩ := Prod.mk.inj located
  have viable : Viable (front ++ ['\n']) := begun.viable_line_iff.2 (by rw [reached]; rfl)
  by_cases start : size front = 0
  · obtain rfl := size_eq_zero_iff.1 start
    obtain rfl := begun.tokens_eq_nil
    obtain rfl := Option.some.inj reached
    obtain ⟨offset, expected⟩ := Prod.mk.inj fault
    refine ⟨[], rest, same, offset.symm, line, column, viable.of_append, ?_,
      fun later => absurd offset later⟩
    intro _
    rw [ParseError.message, expected]
    decide +kernel
  · rw [Stage.fault, if_neg (fun both => start both.2)] at fault
    obtain ⟨offset, expected⟩ := Prod.mk.inj fault
    refine ⟨front, rest, same, offset.symm, line, column, viable.of_append,
      fun zero => absurd (offset.symm.trans zero) start, ?_⟩
    intro _
    refine ⟨fun kind spelling spelled => ?_, ?_, ?_⟩
    · rw [ParseError.names_iff expected, begun.viable_spelling_iff reached spelled]
    · rw [ParseError.names_iff expected, begun.ended_iff reached]
    · rw [ParseError.names_iff expected]
      cases last <;> simp [Stage.expected]

theorem parse_fault_exact_half_keyword :
    ∃ error, Model.parse "state s\ninitialx" = .error error ∧
      error.message = "expected end of input, `state`, `transition`, or `initial`" ∧
      ∃ front rest, "state s\ninitialx".toList = front ++ rest ∧ size front = 8 ∧
        Viable (front ++ '\n' :: "initial".toList ++ ['\n']) := by
  have failed : Model.parse "state s\ninitialx" =
      .error ⟨8, [.endOfInput, .keyword .state, .keyword .transition, .keyword .initial], 2, 1⟩ := by
    cbv
  obtain ⟨-, front, rest, same, sized, -, -, -, -, names⟩ := parse_fault_exact failed
  refine ⟨_, failed, by decide +kernel, front, rest, same, sized, ?_⟩
  exact ((names (by decide)).1 _ _ (.keyword .initial)).1 (by decide +kernel)

-- Without a line feed behind it, a keyword may still become a longer name.
theorem parse_fault_keyword_front :
    ∃ error, Model.parse "state" = .error error ∧
      ¬∃ front rest, "state".toList = front ++ rest ∧ error.line = front.count '\n' + 1 ∧
        error.column = (front.reverse.takeWhile (· != '\n')).length + 1 ∧ Viable front ∧
        (front ≠ [] → ∀ word : Keyword,
          (error.Names (.keyword word) ↔ Viable (front ++ '\n' :: word.text.toList))) := by
  refine ⟨⟨5, [.name], 1, 6⟩, by cbv, ?_⟩
  rintro ⟨front, rest, same, -, column, -, named⟩
  have whole : rest = [] := by
    have bound := (List.takeWhile_sublist (· != '\n') (l := front.reverse)).length_le
    have length := congrArg List.length same
    rw [List.length_append, show "state".toList.length = 5 from rfl] at length
    rw [List.length_reverse] at bound
    rw [← List.length_eq_zero_iff]
    dsimp only at column
    omega
  obtain rfl : front = "state".toList := by rw [same, whole, List.append_nil]
  have viable : Viable ("state".toList ++ '\n' :: Keyword.source.text.toList) :=
    ⟨['x'], ⟨none, [⟨⟨"fromx", ⟨6, 11⟩⟩, false, ⟨0, 11⟩⟩], []⟩, by cbv⟩
  exact absurd ((named (by decide) .source).2 viable) (by decide +kernel)

end FsmWorkbench
