import FsmWorkbench.Proofs.Notation.Descent
import FsmWorkbench.Proofs.Notation.Terminals

set_option autoImplicit false

namespace FsmWorkbench

theorem Lexeme.ofWord_eq_name_iff {text name : String} :
    Lexeme.ofWord text = .name name ↔ text = name ∧ ∀ word : Keyword, text ≠ word.text := by
  constructor
  · intro same
    have fresh : ∀ word : Keyword, text ≠ word.text := by
      rintro word equal
      rw [ofWord_eq_keyword_iff.2 equal] at same
      cases same
    refine ⟨?_, fresh⟩
    rw [ofWord] at same
    split at same
    · cases same
    · exact Lexeme.name.inj same
  · rintro ⟨rfl, fresh⟩
    rw [ofWord]
    split
    · next word found => exact absurd (Keyword.ofText?_eq_some_iff.1 found) (fresh word)
    · rfl

namespace Grammar

open Text

namespace Cursor.Settled

theorem stream_cons_word {offset : Nat} {first : Char} {more : List Char}
    (starts : isWordStart first = true) :
    (Cursor.mk offset (first :: more)).stream =
      let word := first :: more.takeWhile isWordPart
      .token ⟨Lexeme.ofWord (String.ofList word), ⟨offset, offset + size word⟩⟩
        (Cursor.mk (offset + size word) (more.dropWhile isWordPart)).stream :=
  TokenStream.scan_word starts

theorem stream_cons_other {offset : Nat} {c : Char} {more : List Char}
    (settled : (Cursor.mk offset (c :: more)).Settled) (word : isWordStart c = false)
    (quote : c ≠ '"') : (Cursor.mk offset (c :: more)).stream = .blocked offset := by
  apply TokenStream.scan_other (settled.separated c rfl) _ word quote
  rintro rfl second
  obtain ⟨rest, rfl⟩ := List.head?_eq_some_iff.1 second
  exact settled.uncommented ⟨rest, rfl⟩

theorem stream_shape {cursor : Cursor} (settled : cursor.Settled) :
    cursor.rest = [] ∧ cursor.stream = .finished cursor.offset ∨
      cursor.rest ≠ [] ∧ (cursor.stream = .blocked cursor.offset ∨
        ∃ head rest, cursor.stream = .token head rest ∧ head.span.start = cursor.offset) := by
  obtain ⟨offset, _ | ⟨c, more⟩⟩ := cursor
  · exact .inl ⟨rfl, TokenStream.scan_nil offset⟩
  · refine .inr ⟨List.cons_ne_nil _ _, ?_⟩
    by_cases word : isWordStart c = true
    · exact .inr ⟨_, _, stream_cons_word word, rfl⟩
    · by_cases quote : c = '"'
      · subst quote
        simp only [Cursor.stream, TokenStream.scan_quote]
        split
        · exact .inr ⟨_, _, rfl, rfl⟩
        · exact .inl rfl
      · exact .inl (settled.stream_cons_other (by simpa using word) quote)

theorem stream_of_not_word {cursor : Cursor} (settled : cursor.Settled)
    (other : ∀ c ∈ cursor.rest.head?, isWordStart c = false) :
    (∀ word, cursor.stream.keyword? word = none) ∧ cursor.stream.name? = none := by
  obtain ⟨offset, _ | ⟨c, more⟩⟩ := cursor
  · simp [Cursor.stream, TokenStream.keyword?, TokenStream.name?]
  · by_cases quote : c = '"'
    · subst quote
      simp only [Cursor.stream, TokenStream.scan_quote]
      split <;> simp [TokenStream.keyword?, TokenStream.name?]
    · rw [settled.stream_cons_other (other c rfl) quote]
      simp [TokenStream.keyword?, TokenStream.name?]

theorem start_stream {cursor : Cursor} (settled : cursor.Settled) :
    cursor.stream.start = cursor.offset := by
  rcases settled.stream_shape with ⟨-, same⟩ | ⟨-, same | ⟨head, rest, same, start⟩⟩ <;> rw [same]
  · rfl
  · rfl
  · exact start

theorem exhausted_stream {cursor : Cursor} (settled : cursor.Settled) :
    cursor.stream.exhausted = true ↔ cursor.rest = [] := by
  rcases settled.stream_shape with ⟨none, same⟩ | ⟨some, same | ⟨head, rest, same, -⟩⟩ <;>
    simp_all [TokenStream.exhausted]

end Cursor.Settled

theorem isWordPart_of_mem_text {word : Keyword} {c : Char} (member : c ∈ word.text.toList) :
    isWordPart c = true := by
  have all : word.text.toList.all isWordPart = true := by cases word <;> decide
  exact List.all_eq_true.1 all c member

theorem exists_cons_text (word : Keyword) :
    ∃ first more, word.text.toList = first :: more ∧ isWordStart first = true := by
  cases word <;> exact ⟨_, _, rfl, by decide⟩

namespace Expression

theorem run_whole {content : List Char} (inside : ∀ c ∈ content, isWordPart c = true)
    (cursor : Cursor) :
    (seq (text content) (without wordChar)).run cursor =
      if cursor.rest.takeWhile isWordPart = content then
        some ([], cursor.past content (cursor.rest.dropWhile isWordPart))
      else none := by
  obtain ⟨offset, rest⟩ := cursor
  by_cases starts : content <+: rest
  · obtain ⟨after, rfl⟩ := starts
    rw [run_seq (run_text offset content after), takes_wordChar.run_without,
      List.takeWhile_append_of_pos inside, List.dropWhile_append_of_pos inside]
    rcases after with _ | ⟨c, after⟩
    · simp [Cursor.past]
    · cases part : isWordPart c <;> simp [part, Cursor.past]
  · have differs : rest.takeWhile isWordPart ≠ content := by
      rintro rfl
      exact starts (List.takeWhile_prefix _)
    rw [run_seq_eq_none (run_text_eq_none starts), if_neg differs]

end Expression

-- What an expression leaves against what a reader of tokens gives.
inductive Agrees {α : Type} (holds : List Tree → Cursor → α → Prop) :
    Outcome → Option (α × TokenStream) → Prop where
  | fails : Agrees holds none none
  | takes {trees : List Tree} {next : Cursor} {value : α} (kept : holds trees next value) :
      Agrees holds (some (trees, next)) (some (value, next.stream))

def Reads {α : Type} (expression : Expression) (read : TokenStream → Option (α × TokenStream))
    (holds : List Tree → Cursor → α → Prop) : Prop :=
  ∀ cursor : Cursor, cursor.Settled → Agrees holds (expression.run cursor) (read cursor.stream)

theorem keyword?_stream {cursor : Cursor} (settled : cursor.Settled) (word : Keyword) :
    cursor.stream.keyword? word =
      if cursor.rest.takeWhile isWordPart = word.text.toList then
        let next := cursor.past word.text.toList (cursor.rest.dropWhile isWordPart)
        some (⟨cursor.offset, next.offset⟩, next.stream)
      else none := by
  obtain ⟨letter, letters, spelled, isLetter⟩ := exists_cons_text word
  obtain ⟨offset, _ | ⟨first, more⟩⟩ := cursor
  · simp [Cursor.stream, TokenStream.keyword?, spelled]
  · by_cases starts : isWordStart first = true
    · have part := isWordPart_of_isWordStart starts
      rw [Cursor.Settled.stream_cons_word starts, List.takeWhile_cons_of_pos part,
        List.dropWhile_cons_of_pos part]
      split
      · next same =>
        have keyword : Lexeme.ofWord (String.ofList (first :: more.takeWhile isWordPart)) =
            .keyword word := by
          rw [Lexeme.ofWord_eq_keyword_iff, same, String.ofList_toList]
        simp only [keyword, TokenStream.keyword?_token]
        rw [same]
        rfl
      · next differs =>
        apply TokenStream.keyword?_eq_none
        intro head
        have keyword := Option.some.inj head
        rw [Lexeme.ofWord_eq_keyword_iff] at keyword
        exact differs (by rw [← keyword, String.toList_ofList])
    · have differs : (first :: more).takeWhile isWordPart ≠ word.text.toList := by
        rw [spelled]
        intro same
        have begins : letter :: letters <+: first :: more := same ▸ List.takeWhile_prefix _
        obtain ⟨rfl, -⟩ := List.cons_prefix_cons.1 begins
        exact starts isLetter
      have other : ∀ c ∈ (first :: more).head?, isWordStart c = false := by
        simpa using starts
      rw [if_neg differs, (settled.stream_of_not_word other).1]

theorem reads_keyword (word : Keyword) :
    Reads (.keyword word) (TokenStream.keyword? word) fun trees next span =>
      ∃ text, trees = [.node (.keyword word) span text []] ∧ span.stop = next.offset := by
  intro cursor settled
  have inside : ∀ c ∈ word.text.toList, isWordPart c = true := fun _ => isWordPart_of_mem_text
  have whole := Expression.run_whole inside cursor
  rw [keyword?_stream settled]
  split
  · next same =>
    rw [if_pos same] at whole
    have reaches : cursor.Reaches word.text.toList
        (cursor.past word.text.toList (cursor.rest.dropWhile isWordPart)) := by
      refine ⟨?_, rfl⟩
      rw [← same]
      exact List.takeWhile_append_dropWhile.symm
    rw [Expression.keyword, Expression.run_named whole reaches]
    exact .takes ⟨_, rfl, rfl⟩
  · next differs =>
    rw [if_neg differs] at whole
    rw [Expression.keyword, Expression.run_named_eq_none whole]
    exact .fails

namespace Expression

-- No keyword is the start of another, so the order of the choice does not matter.
theorem run_keywordText {word : Keyword} {cursor : Cursor}
    (starts : word.text.toList <+: cursor.rest) :
    keywordText.run cursor = (text word.text.toList).run cursor := by
  obtain ⟨offset, rest⟩ := cursor
  obtain ⟨after, rfl⟩ := starts
  cases word <;> simp [keywordText, run, Keyword.text]

theorem exists_of_run_keywordText {cursor : Cursor}
    (found : (keywordText.run cursor).isSome = true) :
    ∃ word : Keyword, word.text.toList <+: cursor.rest := by
  by_contra absent
  have fails (word : Keyword) : (text word.text.toList).run cursor = none :=
    run_text_eq_none (not_exists.1 absent word)
  simp [keywordText, run_choice, fails] at found

theorem isSome_run_anyKeyword_iff {cursor : Cursor} :
    (anyKeyword.run cursor).isSome = true ↔
      ∃ word : Keyword, cursor.rest.takeWhile isWordPart = word.text.toList := by
  have same {word : Keyword} (starts : word.text.toList <+: cursor.rest) :
      anyKeyword.run cursor = (seq (text word.text.toList) (without wordChar)).run cursor := by
    rw [anyKeyword, run, run, run_keywordText starts]
  constructor
  · intro found
    obtain ⟨word, starts⟩ : ∃ word : Keyword, word.text.toList <+: cursor.rest := by
      apply exists_of_run_keywordText
      obtain ⟨_, began⟩ := Option.isSome_iff_exists.1 found
      obtain ⟨_, began, -⟩ := Option.bind_eq_some_iff.1 began
      rw [began]
      rfl
    rw [same starts, run_whole fun _ => isWordPart_of_mem_text] at found
    split at found
    · next whole => exact ⟨word, whole⟩
    · cases found
  · rintro ⟨word, whole⟩
    rw [same (whole ▸ List.takeWhile_prefix _), run_whole fun _ => isWordPart_of_mem_text,
      if_pos whole]
    rfl

theorem run_name_of_keyword {offset : Nat} {first : Char} {more : List Char} {word : Keyword}
    (starts : isWordStart first = true)
    (same : first :: more.takeWhile isWordPart = word.text.toList) :
    name.run ⟨offset, first :: more⟩ = none := by
  have part := isWordPart_of_isWordStart starts
  have reserved : (anyKeyword.run ⟨offset, first :: more⟩).isSome = true :=
    isSome_run_anyKeyword_iff.2 ⟨word, (List.takeWhile_cons_of_pos part).trans same⟩
  apply run_named_eq_none
  apply run_seq_eq_none
  rw [run_without, if_pos reserved]

theorem run_name_of_word {offset : Nat} {first : Char} {more : List Char}
    (starts : isWordStart first = true)
    (free : ∀ word : Keyword, first :: more.takeWhile isWordPart ≠ word.text.toList) :
    name.run ⟨offset, first :: more⟩ =
      let word := first :: more.takeWhile isWordPart
      some ([.node .name ⟨offset, offset + size word⟩ word []],
        ⟨offset + size word, more.dropWhile isWordPart⟩) := by
  have unreserved : ¬(anyKeyword.run ⟨offset, first :: more⟩).isSome = true := by
    rw [isSome_run_anyKeyword_iff, List.takeWhile_cons_of_pos (isWordPart_of_isWordStart starts)]
    exact not_exists.2 free
  have passed : (without anyKeyword).run ⟨offset, first :: more⟩ =
      some ([], ⟨offset, first :: more⟩) := by
    rw [run_without, if_neg unreserved]
  have began : (choice letter (text ['_'])).run ⟨offset, first :: more⟩ =
      some ([], ⟨offset + first.utf8Size, more⟩) := by
    rw [takes_wordStart]
    simp [starts, Cursor.past]
  have went : (seq (without anyKeyword) (seq (choice letter (text ['_'])) (many wordChar))).run
      ⟨offset, first :: more⟩ =
        some ([], ⟨offset + size (first :: more.takeWhile isWordPart),
          more.dropWhile isWordPart⟩) := by
    rw [run_seq passed, run_seq began, takes_wordChar.run_many]
    simp [Cursor.past, Nat.add_assoc]
  apply run_named went
  simp [Cursor.Reaches]

theorem run_name_of_not_word {cursor : Cursor}
    (other : ∀ c ∈ cursor.rest.head?, isWordStart c = false) : name.run cursor = none := by
  have failed : (choice letter (text ['_'])).run cursor = none := by
    obtain ⟨offset, rest⟩ := cursor
    rw [takes_wordStart]
    cases rest <;> simp_all
  apply run_named_eq_none
  rw [run, run_without]
  split
  · rfl
  · simp [run_seq_eq_none failed]

end Expression

theorem reads_name : Reads .name TokenStream.name? fun trees next name =>
    ∃ tree, trees = [tree] ∧ tree.rule = .name ∧ tree.name = name ∧
      name.span.stop = next.offset := by
  rintro ⟨offset, rest⟩ settled
  by_cases starts : ∃ first more, rest = first :: more ∧ isWordStart first = true
  · obtain ⟨first, more, rfl, starts⟩ := starts
    rw [Cursor.Settled.stream_cons_word starts]
    by_cases reserved : ∃ word : Keyword, first :: more.takeWhile isWordPart = word.text.toList
    · obtain ⟨word, same⟩ := reserved
      have lexeme : Lexeme.ofWord (String.ofList (first :: more.takeWhile isWordPart)) =
          .keyword word := by
        rw [Lexeme.ofWord_eq_keyword_iff, same, String.ofList_toList]
      rw [Expression.run_name_of_keyword starts same]
      simp only [lexeme]
      exact .fails
    · have free := not_exists.1 reserved
      have lexeme : Lexeme.ofWord (String.ofList (first :: more.takeWhile isWordPart)) =
          .name (String.ofList (first :: more.takeWhile isWordPart)) := by
        rw [Lexeme.ofWord_eq_name_iff]
        refine ⟨rfl, fun word same => free word ?_⟩
        rw [← same, String.toList_ofList]
      rw [Expression.run_name_of_word starts free]
      simp only [lexeme]
      exact .takes ⟨_, rfl, rfl, rfl, rfl⟩
  · have other : ∀ c ∈ rest.head?, isWordStart c = false := by
      intro c head
      obtain ⟨more, rfl⟩ := List.head?_eq_some_iff.1 head
      simpa using fun word => starts ⟨c, more, rfl, word⟩
    rw [Expression.run_name_of_not_word other, (settled.stream_of_not_word other).2]
    exact .fails

namespace Expression

theorem run_quotedInner (offset : Nat) (more : List Char) :
    quotedInner.run ⟨offset, more⟩ =
      some ([.node .quotedInner ⟨offset, offset + size (more.takeWhile isQuotable)⟩
        (more.takeWhile isQuotable) []],
        ⟨offset + size (more.takeWhile isQuotable), more.dropWhile isQuotable⟩) := by
  apply run_named (takes_quotable.run_many _)
  simp [Cursor.Reaches, Cursor.past]

theorem run_quoted_of_ended {more after : List Char} (offset : Nat)
    (ended : more.dropWhile isQuotable = '"' :: after) :
    let content := more.takeWhile isQuotable
    let stop := offset + size ('"' :: content) + 1
    quoted.run ⟨offset, '"' :: more⟩ =
      some ([.node .quoted ⟨offset, stop⟩ ('"' :: content ++ ['"'])
        [.node .quotedInner ⟨offset + 1, offset + 1 + size content⟩ content []]],
        ⟨stop, after⟩) := by
  intro content stop
  have opened := run_char offset '"' more
  have inner := run_quotedInner (offset + '"'.utf8Size) more
  rw [ended] at inner
  have closed := run_char (offset + '"'.utf8Size + size content) '"' after
  have width : '"'.utf8Size = 1 := rfl
  have whole := List.takeWhile_append_dropWhile (p := isQuotable) (l := more)
  rw [ended] at whole
  have went : (seq (text ['"']) (seq quotedInner (text ['"']))).run ⟨offset, '"' :: more⟩ =
      some ([.node .quotedInner ⟨offset + 1, offset + 1 + size content⟩ content []],
        ⟨stop, after⟩) := by
    rw [run_seq opened, run_seq inner, closed]
    simp [stop, content, width, Nat.add_assoc]
  apply run_named went
  constructor
  · simp [content, whole]
  · simp [stop, width, Nat.add_assoc]

theorem run_quoted_of_unended {more : List Char} (offset : Nat)
    (unended : ∀ after, more.dropWhile isQuotable ≠ '"' :: after) :
    quoted.run ⟨offset, '"' :: more⟩ = none := by
  have opened := run_char offset '"' more
  have inner := run_quotedInner (offset + '"'.utf8Size) more
  apply run_named_eq_none
  rw [run_seq opened, run_seq inner, run_text_eq_none]
  · rfl
  · rintro ⟨after, same⟩
    exact unended after same.symm

theorem run_quoted_of_not_quote {cursor : Cursor} (other : ∀ more, cursor.rest ≠ '"' :: more) :
    quoted.run cursor = none := by
  apply run_named_eq_none
  apply run_seq_eq_none
  apply run_text_eq_none
  rintro ⟨more, same⟩
  exact other more same.symm

end Expression

theorem Cursor.Settled.quoted?_stream {cursor : Cursor} (settled : cursor.Settled)
    (other : ∀ more, cursor.rest ≠ '"' :: more) : cursor.stream.quoted? = none := by
  obtain ⟨offset, _ | ⟨c, more⟩⟩ := cursor
  · simp [Cursor.stream, TokenStream.quoted?]
  · by_cases word : isWordStart c = true
    · rw [Cursor.Settled.stream_cons_word word]
      simp only [Lexeme.ofWord]
      split <;> rfl
    · rw [settled.stream_cons_other (by simpa using word)]
      · rfl
      · rintro rfl
        exact other more rfl

theorem reads_quoted : Reads .quoted TokenStream.quoted? fun trees next (content, span) =>
    ∃ text inner, trees = [.node .quoted span text [inner]] ∧ inner.text = content ∧
      span.stop = next.offset := by
  rintro ⟨offset, rest⟩ settled
  by_cases quote : ∃ more, rest = '"' :: more
  · obtain ⟨more, rfl⟩ := quote
    rw [Cursor.stream, TokenStream.scan_quote]
    dsimp only
    split
    · next after ended =>
      rw [Expression.run_quoted_of_ended offset ended]
      exact .takes ⟨_, _, rfl, rfl, rfl⟩
    · next unended =>
      rw [Expression.run_quoted_of_unended offset unended]
      exact .fails
  · have other := not_exists.1 quote
    rw [Expression.run_quoted_of_not_quote other, settled.quoted?_stream other]
    exact .fails

end Grammar

theorem Keyword.visible_text (word : Keyword) :
    word.text.toList ≠ [] ∧ ∀ c ∈ word.text.toList, Text.isBlank c = false := by
  obtain ⟨first, more, spelled, -⟩ := Grammar.exists_cons_text word
  exact ⟨by simp [spelled], fun c member =>
    isBlank_eq_false_of_isWordPart (Grammar.isWordPart_of_mem_text member)⟩

end FsmWorkbench
