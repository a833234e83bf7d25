import FsmWorkbench.Proofs.Notation.Cutting
import FsmWorkbench.Proofs.Notation.Grammar

set_option autoImplicit false

namespace FsmWorkbench.Grammar

open Text

namespace Expression

attribute [local simp] run

def Takes (expression : Expression) (p : Char → Bool) : Prop :=
  ∀ cursor, expression.run cursor =
    match cursor.rest with
    | c :: rest => if p c then some ([], cursor.past [c] rest) else none
    | [] => none

theorem takes_range (first last : Char) :
    (range first last).Takes fun c => decide (first ≤ c ∧ c ≤ last) := by
  rintro ⟨offset, _ | ⟨c, rest⟩⟩ <;> simp

theorem takes_text (c : Char) : (text [c]).Takes fun d => d == c := by
  rintro ⟨offset, _ | ⟨d, rest⟩⟩
  · simp
  · by_cases same : d = c
    · simp [same]
    · simp [same, Ne.symm same]

theorem Takes.choice {first second : Expression} {p q : Char → Bool} (left : first.Takes p)
    (right : second.Takes q) : (choice first second).Takes fun c => p c || q c := by
  rintro ⟨offset, _ | ⟨c, rest⟩⟩
  · simp [left _, right _]
  · cases hp : p c <;> simp [left _, right _, hp]

theorem Takes.other {inner : Expression} {p : Char → Bool} (takes : inner.Takes p) :
    (seq (without inner) any).Takes fun c => !p c := by
  rintro ⟨offset, _ | ⟨c, rest⟩⟩
  · simp [takes _]
  · cases hp : p c <;> simp [takes _, hp]

theorem Takes.of_eq {inner : Expression} {p q : Char → Bool} (takes : inner.Takes p)
    (same : ∀ c, p c = q c) : inner.Takes q := by
  rwa [← funext same]

theorem Takes.run_many {inner : Expression} {p : Char → Bool} (takes : inner.Takes p)
    (cursor : Cursor) :
    (many inner).run cursor =
      some ([], cursor.past (cursor.rest.takeWhile p) (cursor.rest.dropWhile p)) := by
  obtain ⟨offset, rest⟩ := cursor
  have stepwise : iterate inner.run ⟨offset, rest⟩ =
      ([], ⟨offset + size (rest.takeWhile p), rest.dropWhile p⟩) := by
    induction rest generalizing offset with
    | nil => rw [iterate]; simp [takes _]
    | cons c rest ih =>
      rw [iterate]
      cases hp : p c <;> simp [takes _, hp, Cursor.past, ih, Nat.add_assoc]
  simp [stepwise, Cursor.past]

theorem Takes.run_without {inner : Expression} {p : Char → Bool} (takes : inner.Takes p)
    (cursor : Cursor) :
    (without inner).run cursor =
      if (cursor.rest.head?.any p) = true then none else some ([], cursor) := by
  obtain ⟨offset, _ | ⟨c, rest⟩⟩ := cursor
  · simp [takes _]
  · cases hp : p c <;> simp [takes _, hp]

theorem takes_separator : separator.Takes isSeparator := by
  refine ((takes_text ' ').choice ((takes_text '\t').choice
    ((takes_text '\r').choice (takes_text '\n')))).of_eq fun c => ?_
  simp [isSeparator, Bool.or_assoc]

theorem takes_letter : letter.Takes Char.isAlpha := by
  refine ((takes_range 'a' 'z').choice (takes_range 'A' 'Z')).of_eq fun c => ?_
  rw [Bool.eq_iff_iff, isAlpha_eq_true_iff]
  simp [Char.le_def, UInt32.le_iff_toNat_le, or_comm]

theorem takes_wordStart : (Expression.choice letter (.text ['_'])).Takes isWordStart := by
  exact (takes_letter.choice (takes_text '_')).of_eq fun c => rfl

theorem takes_wordChar : wordChar.Takes isWordPart := by
  refine ((takes_letter.choice (takes_range '0' '9')).choice (takes_text '_')).of_eq fun c => ?_
  simp only [isWordPart, Char.isAlphanum, Char.isDigit, Char.le_def, Bool.decide_and, ge_iff_le]

theorem takes_commentPart :
    (Expression.seq (.without (.text ['\n'])) .any).Takes isCommentPart := by
  exact (takes_text '\n').other.of_eq fun c => rfl

theorem takes_quotable :
    (Expression.seq (.without (.choice (.text ['"']) (.text ['\n']))) .any).Takes isQuotable := by
  refine ((takes_text '"').choice (takes_text '\n')).other.of_eq fun c => ?_
  simp [isQuotable, bne]

end Expression

namespace Cursor

def stream (cursor : Cursor) : TokenStream :=
  .scan cursor.offset cursor.rest

structure Settled (cursor : Cursor) : Prop where
  separated : ∀ c ∈ cursor.rest.head?, isSeparator c = false
  uncommented : ¬['/', '/'] <+: cursor.rest

theorem stream_past_separators (cursor : Cursor) :
    (cursor.past (cursor.rest.takeWhile isSeparator) (cursor.rest.dropWhile isSeparator)).stream =
      cursor.stream := by
  obtain ⟨offset, rest⟩ := cursor
  induction rest generalizing offset with
  | nil => rfl
  | cons c rest ih =>
    cases separator : isSeparator c with
    | false => simp [separator, past]
    | true =>
      have later := ih (offset + c.utf8Size)
      simp only [past, stream, separator, List.takeWhile_cons_of_pos, List.dropWhile_cons_of_pos,
        TokenStream.scan_separator, size_cons, Nat.add_assoc] at later ⊢
      exact later

end Cursor

namespace Expression

theorem run_separators (cursor : Cursor) :
    ∃ next, (many separator).run cursor = some ([], next) ∧ next.stream = cursor.stream ∧
      ∀ c ∈ next.rest.head?, isSeparator c = false := by
  refine ⟨_, takes_separator.run_many cursor, cursor.stream_past_separators, ?_⟩
  exact fun c head => eq_false_of_mem_head?_dropWhile head

theorem run_comment {cursor : Cursor} (opened : ['/', '/'] <+: cursor.rest) :
    ∃ next, (seq comment (many separator)).run cursor = some ([], next) ∧
      next.stream = cursor.stream ∧ next.rest.length < cursor.rest.length ∧
      ∀ c ∈ next.rest.head?, isSeparator c = false := by
  obtain ⟨offset, _⟩ := cursor
  obtain ⟨more, rfl⟩ := opened
  let body := more.takeWhile isCommentPart
  let ended := more.dropWhile isCommentPart
  have commented : comment.run ⟨offset, ['/', '/'] ++ more⟩ =
      some ([], ⟨offset + size ('/' :: '/' :: body), ended⟩) := by
    rw [comment, run_seq (run_text offset ['/', '/'] more), takes_commentPart.run_many]
    simp [Cursor.past, body, ended, Nat.add_assoc]
  obtain ⟨next, went, same, separated⟩ :=
    run_separators ⟨offset + size ('/' :: '/' :: body), ended⟩
  refine ⟨next, ?_, ?_, ?_, separated⟩
  · rw [run_seq commented, went]
    rfl
  · rw [same]
    exact (TokenStream.scan_comment offset more).symm
  · obtain ⟨_, reaches⟩ := exists_reaches went
    have shorter : next.rest.length ≤ ended.length := by
      have := congrArg List.length reaches.1
      simp only [List.length_append] at this
      omega
    have fits : ended.length ≤ more.length := (List.dropWhile_sublist _).length_le
    simp only [List.cons_append, List.nil_append, List.length_cons]
    omega

theorem iterate_comments (cursor : Cursor)
    (separated : ∀ c ∈ cursor.rest.head?, isSeparator c = false) :
    ∃ next, iterate (seq comment (many separator)).run cursor = ([], next) ∧
      next.stream = cursor.stream ∧ next.Settled := by
  induction n : cursor.rest.length using Nat.strongRecOn generalizing cursor with
  | ind n ih =>
    subst n
    rw [iterate]
    by_cases opened : ['/', '/'] <+: cursor.rest
    · obtain ⟨next, went, same, shorter, after⟩ := run_comment opened
      obtain ⟨last, more, still, settled⟩ := ih _ shorter next after rfl
      refine ⟨last, ?_, still.trans same, settled⟩
      simp [went, shorter, more]
    · refine ⟨cursor, ?_, rfl, separated, opened⟩
      have failed : (seq comment (many separator)).run cursor = none :=
        run_seq_eq_none (run_seq_eq_none (run_text_eq_none opened))
      rw [failed]

theorem run_skip (cursor : Cursor) :
    ∃ next, skip.run cursor = some ([], next) ∧ next.stream = cursor.stream ∧ next.Settled := by
  obtain ⟨middle, separators, same, separated⟩ := run_separators cursor
  obtain ⟨next, comments, still, settled⟩ := iterate_comments middle separated
  refine ⟨next, ?_, still.trans same, settled⟩
  rw [skip, run_seq separators, run, comments]
  rfl

end Expression

end FsmWorkbench.Grammar
