import FsmWorkbench.Text.Blank
import FsmWorkbench.Token.Lexer
import Mathlib.Data.List.TakeWhile

set_option autoImplicit false

namespace FsmWorkbench

inductive Piece where
  | lexeme (found : Lexeme)
  | comment (body : List Char)
  deriving DecidableEq, Repr, Inhabited

def Piece.lexeme? : Piece → Option Lexeme
  | .lexeme found => some found
  | .comment _ => none

def lexemesOf (pieces : List (Nat × Piece)) : List Lexeme :=
  pieces.filterMap fun piece => piece.2.lexeme?

/-- The pieces of a text whose first line has the given number, each with its line. -/
inductive Cuts : Nat → List Char → List (Nat × Piece) → Prop where
  | done (line : Nat) : Cuts line [] []
  | newline {line : Nat} {rest : List Char} {pieces : List (Nat × Piece)}
      (after : Cuts (line + 1) rest pieces) : Cuts line ('\n' :: rest) pieces
  | blank {line : Nat} {c : Char} {rest : List Char} {pieces : List (Nat × Piece)}
      (blank : c = ' ' ∨ c = '\t' ∨ c = '\r') (after : Cuts line rest pieces) :
      Cuts line (c :: rest) pieces
  | comment {line : Nat} {body rest : List Char} {pieces : List (Nat × Piece)}
      (inside : '\n' ∉ body) (ends : ∀ c ∈ rest.head?, c = '\n') (after : Cuts line rest pieces) :
      Cuts line ('/' :: '/' :: (body ++ rest)) ((line, .comment body) :: pieces)
  | word {line : Nat} {first : Char} {more rest : List Char} {pieces : List (Nat × Piece)}
      (starts : isWordStart first = true) (inside : ∀ c ∈ more, isWordPart c = true)
      (ends : ∀ c ∈ rest.head?, isWordPart c = false) (after : Cuts line rest pieces) :
      Cuts line (first :: (more ++ rest))
        ((line, .lexeme (Lexeme.ofWord (String.ofList (first :: more)))) :: pieces)
  | quoted {line : Nat} {content rest : List Char} {pieces : List (Nat × Piece)}
      (unquoted : '"' ∉ content) (inside : '\n' ∉ content) (after : Cuts line rest pieces) :
      Cuts line ('"' :: (content ++ '"' :: rest))
        ((line, .lexeme (.quoted (String.ofList content))) :: pieces)

-- The same as for words in general, with conditions to compute.
theorem Cuts.spelled {line : Nat} {first : Char} {more rest : List Char}
    {pieces : List (Nat × Piece)} (starts : isWordStart first = true)
    (inside : more.all isWordPart = true) (ends : rest.head?.all (!isWordPart ·) = true)
    (after : Cuts line rest pieces) :
    Cuts line (first :: (more ++ rest))
      ((line, .lexeme (Lexeme.ofWord (String.ofList (first :: more)))) :: pieces) := by
  refine .word starts (List.all_eq_true.1 inside) ?_ after
  intro c next
  rw [Option.mem_def.1 next] at ends
  simpa using ends

namespace TokenStream

def lexemes (stream : TokenStream) : List Lexeme :=
  stream.tokens.map Token.lexeme

@[simp] theorem lexemes_finished (offset : Nat) : (finished offset).lexemes = [] := rfl

@[simp] theorem lexemes_token (head : Token) (rest : TokenStream) :
    (token head rest).lexemes = head.lexeme :: rest.lexemes := rfl

end TokenStream

theorem Lexeme.ofWord_eq_keyword_iff {text : String} {word : Keyword} :
    Lexeme.ofWord text = .keyword word ↔ text = word.text := by
  rw [ofWord, ← Keyword.ofText?_eq_some_iff]
  split <;> simp_all

theorem isAlpha_eq_true_iff {c : Char} :
    c.isAlpha = true ↔ 65 ≤ c.toNat ∧ c.toNat ≤ 90 ∨ 97 ≤ c.toNat ∧ c.toNat ≤ 122 := by
  change (decide (c.val ≥ 65 ∧ c.val ≤ 90) ||
    (decide (c.val ≥ 97) && decide (c.val ≤ 122))) = true ↔ _
  simp [UInt32.le_iff_toNat_le]

theorem isBlank_eq_false_of_isWordPart {c : Char} (part : isWordPart c = true) :
    Text.isBlank c = false := by
  have spaces : Text.isBlank c = true → c.toNat ≤ 0x20 ∨ 0x85 ≤ c.toNat := by
    simp only [Text.isBlank, Text.CharClass.contains_iff, Text.blanks, List.mem_cons,
      List.not_mem_nil, or_false, exists_eq_or_imp, exists_eq_left]
    omega
  have words : 0x20 < c.toNat ∧ c.toNat < 0x85 := by
    simp only [isWordPart, Char.isAlphanum, isAlpha_eq_true_iff, Char.isDigit, Bool.or_eq_true,
      Bool.and_eq_true, decide_eq_true_eq, beq_iff_eq, ge_iff_le, UInt32.le_iff_toNat_le,
      Char.toNat_val, Char.reduceVal, UInt32.reduceToNat] at part
    rcases part with ((h | h) | h) | rfl
    · omega
    · omega
    · omega
    · decide
  cases blank : Text.isBlank c with
  | false => rfl
  | true =>
    have := spaces blank
    omega

theorem takeWhile_eq_nil {p : Char → Bool} {cs : List Char} (ends : ∀ c ∈ cs.head?, p c = false) :
    cs.takeWhile p = [] := by
  cases cs <;> simp_all

theorem dropWhile_eq_self {p : Char → Bool} {cs : List Char} (ends : ∀ c ∈ cs.head?, p c = false) :
    cs.dropWhile p = cs := by
  cases cs <;> simp_all

theorem eq_false_of_mem_head?_dropWhile {p : Char → Bool} {cs : List Char} {c : Char}
    (head : c ∈ (cs.dropWhile p).head?) : p c = false := by
  have stopped := List.head?_dropWhile_not p cs
  rw [Option.mem_def.1 head] at stopped
  exact stopped

theorem eq_true_of_mem_takeWhile {p : Char → Bool} {cs : List Char} {c : Char}
    (member : c ∈ cs.takeWhile p) : p c = true :=
  List.all_eq_true.1 (List.all_takeWhile (l := cs)) c member

theorem append_unique {p : Char → Bool} {front rest front' rest' : List Char}
    (inside : ∀ c ∈ front, p c = true) (ends : ∀ c ∈ rest.head?, p c = false)
    (inside' : ∀ c ∈ front', p c = true) (ends' : ∀ c ∈ rest'.head?, p c = false)
    (same : front ++ rest = front' ++ rest') : front = front' ∧ rest = rest' := by
  have fronts := congrArg (List.takeWhile p) same
  have rests := congrArg (List.dropWhile p) same
  rw [List.takeWhile_append_of_pos inside, List.takeWhile_append_of_pos inside',
    takeWhile_eq_nil ends, takeWhile_eq_nil ends', List.append_nil, List.append_nil] at fronts
  rw [List.dropWhile_append_of_pos inside, List.dropWhile_append_of_pos inside',
    dropWhile_eq_self ends, dropWhile_eq_self ends'] at rests
  exact ⟨fronts, rests⟩

theorem isCommentPart_of_not_mem {body : List Char} (inside : '\n' ∉ body) :
    ∀ c ∈ body, isCommentPart c = true := by
  rintro c member
  simp only [isCommentPart, bne_iff_ne]
  rintro rfl
  exact inside member

theorem isQuotable_of_not_mem {content : List Char} (unquoted : '"' ∉ content)
    (inside : '\n' ∉ content) : ∀ c ∈ content, isQuotable c = true := by
  intro c member
  simp only [isQuotable, Bool.and_eq_true, bne_iff_ne]
  constructor <;> rintro rfl <;> contradiction

theorem isSeparator_eq_false_of_isWordStart {c : Char} (starts : isWordStart c = true) :
    isSeparator c = false := by
  cases h : isSeparator c with
  | false => rfl
  | true =>
    simp only [isSeparator, Bool.or_eq_true, beq_iff_eq] at h
    rcases h with ((rfl | rfl) | rfl) | rfl <;> revert starts <;> decide

namespace TokenStream

theorem scan_separator {offset : Nat} {c : Char} {rest : List Char} (h : isSeparator c = true) :
    scan offset (c :: rest) = scan (offset + c.utf8Size) rest := by
  rw [scan, if_pos h]

theorem scan_comment (offset : Nat) (rest : List Char) :
    scan offset ('/' :: '/' :: rest) =
      scan (offset + Text.size ('/' :: '/' :: rest.takeWhile isCommentPart))
        (rest.dropWhile isCommentPart) := by
  rw [scan, if_neg (by decide), if_pos ⟨rfl, rfl⟩, List.takeWhile_cons_of_pos (by decide),
    List.dropWhile_cons_of_pos (by decide)]

theorem scan_word {offset : Nat} {first : Char} {rest : List Char}
    (starts : isWordStart first = true) :
    scan offset (first :: rest) =
      let word := first :: rest.takeWhile isWordPart
      .token ⟨Lexeme.ofWord (String.ofList word), ⟨offset, offset + Text.size word⟩⟩
        (scan (offset + Text.size word) (rest.dropWhile isWordPart)) := by
  have slash : first ≠ '/' := by rintro rfl; revert starts; decide
  rw [scan, if_neg (by simp [isSeparator_eq_false_of_isWordStart starts]), if_neg (by simp [slash]),
    if_pos starts]

theorem scan_quote (offset : Nat) (rest : List Char) :
    scan offset ('"' :: rest) =
      let content := rest.takeWhile isQuotable
      match rest.dropWhile isQuotable with
      | '"' :: after =>
        let next := offset + Text.size ('"' :: content) + 1
        .token ⟨.quoted (String.ofList content), ⟨offset, next⟩⟩ (scan next after)
      | _ => .blocked offset := by
  rw [scan, if_neg (by decide), if_neg (by simp), if_neg (by decide), if_pos rfl]
  split <;> rename_i h <;> split <;> simp_all

theorem scan_other {offset : Nat} {c : Char} {rest : List Char} (separator : isSeparator c = false)
    (comment : c = '/' → rest.head? ≠ some '/') (word : isWordStart c = false) (quote : c ≠ '"') :
    scan offset (c :: rest) = .blocked offset := by
  rw [scan, if_neg (by simp [separator]), if_neg (by simpa using comment), if_neg (by simp [word]),
    if_neg quote]

end TokenStream

theorem Cuts.scan {line : Nat} {cs : List Char} {pieces : List (Nat × Piece)}
    (cut : Cuts line cs pieces) (offset : Nat) :
    (TokenStream.scan offset cs).complete = true ∧
      (TokenStream.scan offset cs).lexemes = lexemesOf pieces := by
  induction cut generalizing offset with
  | done => simp [TokenStream.complete, lexemesOf]
  | newline _ ih =>
    rw [TokenStream.scan_separator (by decide)]
    exact ih _
  | blank blank _ ih =>
    rw [TokenStream.scan_separator (by rcases blank with rfl | rfl | rfl <;> decide)]
    exact ih _
  | @comment line body rest pieces inside ends _ ih =>
    have part := isCommentPart_of_not_mem inside
    have stop : ∀ c ∈ rest.head?, isCommentPart c = false := by
      simpa [isCommentPart] using ends
    rw [TokenStream.scan_comment, List.dropWhile_append_of_pos part, dropWhile_eq_self stop]
    exact ih _
  | word starts inside ends _ ih =>
    rw [TokenStream.scan_word starts, List.takeWhile_append_of_pos inside, takeWhile_eq_nil ends,
      List.dropWhile_append_of_pos inside, dropWhile_eq_self ends, List.append_nil]
    obtain ⟨complete, same⟩ := ih _
    exact ⟨complete, congrArg _ same⟩
  | @quoted line content rest pieces unquoted inside _ ih =>
    have quotable := isQuotable_of_not_mem unquoted inside
    have stop : ∀ c ∈ ('"' :: rest).head?, isQuotable c = false := by
      simp [isQuotable]
    rw [TokenStream.scan_quote, List.takeWhile_append_of_pos quotable, takeWhile_eq_nil stop,
      List.dropWhile_append_of_pos quotable, dropWhile_eq_self stop, List.append_nil]
    obtain ⟨complete, same⟩ := ih _
    exact ⟨complete, congrArg _ same⟩

theorem exists_cuts_of_complete {cs : List Char} {offset : Nat}
    (complete : (TokenStream.scan offset cs).complete = true) (line : Nat) :
    ∃ pieces, Cuts line cs pieces := by
  fun_induction TokenStream.scan offset cs generalizing line with
  | case1 => exact ⟨[], .done line⟩
  | case2 offset c rest separator ih =>
    by_cases feed : c = '\n'
    · obtain ⟨pieces, cut⟩ := ih complete (line + 1)
      exact ⟨pieces, feed ▸ .newline cut⟩
    · obtain ⟨pieces, cut⟩ := ih complete line
      refine ⟨pieces, .blank ?_ cut⟩
      simpa [isSeparator, feed, or_assoc] using separator
  | case3 offset c rest _ slashes ih =>
    obtain ⟨rfl, second⟩ := slashes
    obtain ⟨more, rfl⟩ := List.head?_eq_some_iff.1 second
    obtain ⟨pieces, cut⟩ := ih complete line
    rw [List.dropWhile_cons_of_pos (by decide)] at cut
    rw [← List.takeWhile_append_dropWhile (p := isCommentPart) (l := more)]
    refine ⟨_, .comment ?_ ?_ cut⟩
    · intro feed
      exact absurd (eq_true_of_mem_takeWhile feed) (by decide)
    · intro c head
      simpa [isCommentPart] using eq_false_of_mem_head?_dropWhile head
  | case4 offset c rest _ _ starts word ih =>
    obtain ⟨pieces, cut⟩ := ih complete line
    rw [← List.takeWhile_append_dropWhile (p := isWordPart) (l := rest)]
    refine ⟨_, .word starts ?_ ?_ cut⟩
    · exact fun c member => eq_true_of_mem_takeWhile member
    · exact fun c head => eq_false_of_mem_head?_dropWhile head
  | case5 offset rest content after hrest _ _ _ next ih =>
    obtain ⟨pieces, cut⟩ := ih complete line
    rw [← List.takeWhile_append_dropWhile (p := isQuotable) (l := rest), hrest]
    refine ⟨_, .quoted ?_ ?_ cut⟩
    · intro quote
      exact absurd (eq_true_of_mem_takeWhile quote) (by decide)
    · intro feed
      exact absurd (eq_true_of_mem_takeWhile feed) (by decide)
  | case6 | case7 => simp [TokenStream.complete] at complete

-- Text can be cut in one way only: the first character says which piece comes first.
theorem Cuts.unique {line : Nat} {cs : List Char} {pieces others : List (Nat × Piece)}
    (cut : Cuts line cs pieces) (other : Cuts line cs others) : pieces = others := by
  induction cut generalizing others with
  | done => cases other; rfl
  | newline _ ih =>
    cases other with
    | newline after => exact ih after
    | blank blank => simp at blank
    | word starts => exact absurd starts (by decide)
  | @blank _ _ _ _ blank _ ih =>
    cases other with
    | newline => simp at blank
    | blank _ after => exact ih after
    | comment => simp at blank
    | word starts => rcases blank with rfl | rfl | rfl <;> exact absurd starts (by decide)
    | quoted => simp at blank
  | @comment _ body rest _ inside ends _ ih =>
    generalize whole : '/' :: '/' :: (body ++ rest) = cs at other
    cases other with
    | done => cases whole
    | newline => simp at whole
    | blank blank =>
      obtain ⟨rfl, -⟩ := List.cons.inj whole
      simp at blank
    | comment inside' ends' after =>
      simp only [List.cons.injEq, true_and] at whole
      obtain ⟨rfl, rfl⟩ := append_unique (isCommentPart_of_not_mem inside)
        (by simpa [isCommentPart] using ends) (isCommentPart_of_not_mem inside')
        (by simpa [isCommentPart] using ends') whole
      rw [ih after]
    | word starts =>
      obtain ⟨rfl, -⟩ := List.cons.inj whole
      exact absurd starts (by decide)
    | quoted => simp at whole
  | @word _ first more rest _ starts inside ends _ ih =>
    generalize whole : first :: (more ++ rest) = cs at other
    cases other with
    | done => cases whole
    | newline =>
      obtain ⟨rfl, -⟩ := List.cons.inj whole
      exact absurd starts (by decide)
    | blank blank =>
      obtain ⟨rfl, -⟩ := List.cons.inj whole
      rcases blank with rfl | rfl | rfl <;> exact absurd starts (by decide)
    | comment | quoted =>
      obtain ⟨rfl, -⟩ := List.cons.inj whole
      exact absurd starts (by decide)
    | word _ inside' ends' after =>
      obtain ⟨rfl, tails⟩ := List.cons.inj whole
      obtain ⟨rfl, rfl⟩ := append_unique inside ends inside' ends' tails
      rw [ih after]
  | @quoted _ content rest _ unquoted inside _ ih =>
    generalize whole : '"' :: (content ++ '"' :: rest) = cs at other
    cases other with
    | done => cases whole
    | newline => simp at whole
    | blank blank =>
      obtain ⟨rfl, -⟩ := List.cons.inj whole
      simp at blank
    | comment => simp at whole
    | word starts =>
      obtain ⟨rfl, -⟩ := List.cons.inj whole
      exact absurd starts (by decide)
    | quoted unquoted' inside' after =>
      obtain ⟨-, tails⟩ := List.cons.inj whole
      obtain ⟨rfl, rests⟩ := append_unique (isQuotable_of_not_mem unquoted inside)
        (by simp [isQuotable]) (isQuotable_of_not_mem unquoted' inside') (by simp [isQuotable])
        tails
      obtain ⟨-, rfl⟩ := List.cons.inj rests
      rw [ih after]

end FsmWorkbench
