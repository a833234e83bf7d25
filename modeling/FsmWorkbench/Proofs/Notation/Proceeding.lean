import FsmWorkbench.Proofs.Notation.Fronts
import FsmWorkbench.Proofs.Notation.Printing
import FsmWorkbench.Proofs.Text.Positions

set_option autoImplicit false

namespace FsmWorkbench

open Text

-- Nothing but separators, comments and the given tokens stands in a text before a rest of it.
inductive Proceeds : List Char → List Lexeme → List Char → Prop where
  | done (rest : List Char) : Proceeds rest [] rest
  | separator {c : Char} {cs rest : List Char} {lexemes : List Lexeme}
      (separates : isSeparator c = true) (after : Proceeds cs lexemes rest) :
      Proceeds (c :: cs) lexemes rest
  | comment {body cs rest : List Char} {lexemes : List Lexeme} (inside : '\n' ∉ body)
      (ends : ∀ c ∈ cs.head?, c = '\n') (after : Proceeds cs lexemes rest) :
      Proceeds ('/' :: '/' :: (body ++ cs)) lexemes rest
  | word {first : Char} {more cs rest : List Char} {lexemes : List Lexeme}
      (starts : isWordStart first = true) (inside : ∀ c ∈ more, isWordPart c = true)
      (ends : ∀ c ∈ cs.head?, isWordPart c = false) (after : Proceeds cs lexemes rest) :
      Proceeds (first :: (more ++ cs)) (.ofWord (String.ofList (first :: more)) :: lexemes) rest
  | quoted {content cs rest : List Char} {lexemes : List Lexeme}
      (inside : ∀ c ∈ content, isQuotable c = true) (after : Proceeds cs lexemes rest) :
      Proceeds ('"' :: (content ++ '"' :: cs)) (.quoted (String.ofList content) :: lexemes) rest

theorem Lexeme.spelling_ofWord (text : String) : (ofWord text).spelling = text.toList := by
  cases same : ofWord text with
  | keyword word => rw [ofWord_eq_keyword_iff.1 same]; rfl
  | name found => rw [(ofWord_eq_name_iff.1 same).1]; rfl
  | quoted content =>
    rw [ofWord] at same
    split at same <;> cases same

def Lexeme.IsWord : Lexeme → Prop
  | .keyword _ | .name _ => True
  | .quoted _ => False

theorem Lexeme.exists_cons_spelling {lexeme : Lexeme} (word : lexeme.IsWord)
    (writable : lexeme.Writable) :
    ∃ first more, lexeme.spelling = first :: more ∧ isWordStart first = true ∧
      ∀ c ∈ more, isWordPart c = true := by
  cases lexeme with
  | keyword found =>
    obtain ⟨first, more, spelled, starts⟩ := Grammar.exists_cons_text found
    refine ⟨first, more, spelled, starts, fun c member => ?_⟩
    exact Grammar.isWordPart_of_mem_text (spelled ▸ List.mem_cons_of_mem first member)
  | name text => exact writable.1
  | quoted => cases word

namespace TokenStream

theorem scan_spelled_word {offset : Nat} {first : Char} {more cs : List Char}
    (starts : isWordStart first = true) (inside : ∀ c ∈ more, isWordPart c = true)
    (ends : ∀ c ∈ cs.head?, isWordPart c = false) :
    scan offset (first :: (more ++ cs)) =
      .token ⟨.ofWord (String.ofList (first :: more)), ⟨offset, offset + size (first :: more)⟩⟩
        (scan (offset + size (first :: more)) cs) := by
  rw [scan_word starts, List.takeWhile_append_of_pos inside, takeWhile_eq_nil ends,
    List.dropWhile_append_of_pos inside, dropWhile_eq_self ends, List.append_nil]

theorem scan_whole_comment {offset : Nat} {body cs : List Char} (inside : '\n' ∉ body)
    (ends : ∀ c ∈ cs.head?, c = '\n') :
    scan offset ('/' :: '/' :: (body ++ cs)) = scan (offset + size ('/' :: '/' :: body)) cs := by
  have part := isCommentPart_of_not_mem inside
  have stop : ∀ c ∈ cs.head?, isCommentPart c = false := by
    simpa [isCommentPart] using ends
  rw [scan_comment, List.takeWhile_append_of_pos part, takeWhile_eq_nil stop,
    List.dropWhile_append_of_pos part, dropWhile_eq_self stop, List.append_nil]

theorem lexemes_prepend (tokens : List Token) (stream : TokenStream) :
    (stream.prepend tokens).lexemes = tokens.map Token.lexeme ++ stream.lexemes := by
  induction tokens with
  | nil => rfl
  | cons head tokens ih => rw [prepend_cons, lexemes_token, ih]; rfl

theorem complete_prepend (tokens : List Token) (stream : TokenStream) :
    (stream.prepend tokens).complete = stream.complete := by
  induction tokens with
  | nil => rfl
  | cons head tokens ih => exact ih

end TokenStream

namespace Proceeds

variable {cs middle rest : List Char} {lexemes others : List Lexeme}

theorem exists_append (proceeds : Proceeds cs lexemes rest) : ∃ front, cs = front ++ rest := by
  induction proceeds with
  | done => exact ⟨[], rfl⟩
  | @separator c _ _ _ _ _ ih =>
    obtain ⟨front, rfl⟩ := ih
    exact ⟨c :: front, rfl⟩
  | @comment body _ _ _ _ _ _ ih =>
    obtain ⟨front, rfl⟩ := ih
    exact ⟨'/' :: '/' :: (body ++ front), by simp⟩
  | @word first more _ _ _ _ _ _ _ ih =>
    obtain ⟨front, rfl⟩ := ih
    exact ⟨first :: (more ++ front), by simp⟩
  | @quoted content _ _ _ _ _ ih =>
    obtain ⟨front, rfl⟩ := ih
    exact ⟨'"' :: (content ++ '"' :: front), by simp⟩

theorem trans (first : Proceeds cs lexemes middle) (second : Proceeds middle others rest) :
    Proceeds cs (lexemes ++ others) rest := by
  induction first with
  | done => exact second
  | separator separates _ ih => exact .separator separates (ih second)
  | comment inside ends _ ih => exact .comment inside ends (ih second)
  | word starts inside ends _ ih => exact .word starts inside ends (ih second)
  | quoted inside _ ih => exact .quoted inside (ih second)

theorem exists_scan (proceeds : Proceeds cs lexemes rest) {front : List Char}
    (whole : cs = front ++ rest) (offset : Nat) :
    ∃ tokens : List Token, tokens.map Token.lexeme = lexemes ∧
      TokenStream.scan offset cs =
        (TokenStream.scan (offset + size front) rest).prepend tokens := by
  induction proceeds generalizing front offset with
  | done rest =>
    obtain rfl := List.append_left_eq_self.1 whole.symm
    exact ⟨[], rfl, rfl⟩
  | @separator c _ _ _ separates after ih =>
    obtain ⟨more, rfl⟩ := after.exists_append
    obtain rfl := @List.append_cancel_right _ (c :: more) _ _ whole
    obtain ⟨tokens, same, scanned⟩ := ih rfl (offset + c.utf8Size)
    refine ⟨tokens, same, ?_⟩
    rw [TokenStream.scan_separator separates, scanned, size_cons, Nat.add_assoc]
  | @comment body _ _ _ inside ends after ih =>
    obtain ⟨more, rfl⟩ := after.exists_append
    obtain rfl := @List.append_cancel_right _ ('/' :: '/' :: (body ++ more)) _ _
      (by simpa using whole)
    obtain ⟨tokens, same, scanned⟩ := ih rfl (offset + size ('/' :: '/' :: body))
    refine ⟨tokens, same, ?_⟩
    rw [TokenStream.scan_whole_comment inside ends, scanned, Nat.add_assoc, ← size_append,
      List.cons_append, List.cons_append]
  | @word first letters _ _ _ starts inside ends after ih =>
    obtain ⟨more, rfl⟩ := after.exists_append
    obtain rfl := @List.append_cancel_right _ (first :: (letters ++ more)) _ _
      (by simpa using whole)
    obtain ⟨tokens, same, scanned⟩ := ih rfl (offset + size (first :: letters))
    let head : Token := ⟨.ofWord (String.ofList (first :: letters)),
      ⟨offset, offset + size (first :: letters)⟩⟩
    refine ⟨head :: tokens, by rw [List.map_cons, same], ?_⟩
    rw [TokenStream.scan_spelled_word starts inside ends, scanned, Nat.add_assoc, ← size_append,
      List.cons_append, TokenStream.prepend_cons]
  | @quoted content _ _ _ inside after ih =>
    obtain ⟨more, rfl⟩ := after.exists_append
    obtain rfl := @List.append_cancel_right _ ('"' :: (content ++ '"' :: more)) _ _
      (by simpa using whole)
    obtain ⟨tokens, same, scanned⟩ := ih rfl (offset + size ('"' :: content) + 1)
    let head : Token := ⟨.quoted (String.ofList content),
      ⟨offset, offset + size ('"' :: content) + 1⟩⟩
    refine ⟨head :: tokens, by rw [List.map_cons, same], ?_⟩
    have sized : offset + size ('"' :: content) + 1 + size more =
        offset + size ('"' :: (content ++ '"' :: more)) := by
      have quote : '"'.utf8Size = 1 := rfl
      simp only [size_cons, size_append, quote]
      omega
    rw [TokenStream.scan_quoted inside, scanned, sized, TokenStream.prepend_cons]

theorem of_cuts {line : Nat} {pieces : List (Nat × Piece)} (cut : Cuts line cs pieces) :
    Proceeds cs (lexemesOf pieces) [] := by
  induction cut with
  | done => exact .done []
  | newline _ ih => exact .separator (by decide) ih
  | blank blank _ ih =>
    exact .separator (by rcases blank with rfl | rfl | rfl <;> decide) ih
  | comment inside ends _ ih => exact .comment inside ends ih
  | word starts inside ends _ ih => exact .word starts inside ends ih
  | quoted unquoted inside _ ih => exact .quoted (isQuotable_of_not_mem unquoted inside) ih

theorem end_iff {offset : Nat} : Proceeds cs lexemes [] ↔
    (TokenStream.scan offset cs).complete = true ∧
      (TokenStream.scan offset cs).lexemes = lexemes := by
  constructor
  · intro proceeds
    obtain ⟨tokens, same, scanned⟩ := proceeds.exists_scan (List.append_nil cs).symm offset
    rw [scanned, TokenStream.scan_nil, TokenStream.complete_prepend, TokenStream.lexemes_prepend,
      same]
    exact ⟨rfl, List.append_nil _⟩
  · rintro ⟨complete, rfl⟩
    obtain ⟨pieces, cut⟩ := exists_cuts_of_complete complete 0
    rw [(cut.scan offset).2]
    exact of_cuts cut

end Proceeds

theorem TokenStream.exists_proceeds {offset : Nat} {cs : List Char} {tokens : List Token}
    {head : Token} {later : TokenStream}
    (scanned : scan offset cs = (token head later).prepend tokens) :
    ∃ front rest, cs = front ++ (head.lexeme.spelling ++ rest) ∧
      head.span.start = offset + size front ∧
      Proceeds cs (tokens.map Token.lexeme) (head.lexeme.spelling ++ rest) := by
  fun_induction scan offset cs generalizing tokens with
  | case1 | case6 | case7 => cases tokens <;> cases scanned
  | case2 offset c rest separates ih =>
    obtain ⟨front, after, whole, start, proceeds⟩ := ih scanned
    exact ⟨c :: front, after, congrArg (List.cons c) whole, by rw [start, size_cons, Nat.add_assoc],
      .separator separates proceeds⟩
  | case3 offset c rest _ slashes ih =>
    obtain ⟨rfl, second⟩ := slashes
    obtain ⟨more, rfl⟩ := List.head?_eq_some_iff.1 second
    obtain ⟨front, after, whole, start, proceeds⟩ := ih scanned
    rw [List.takeWhile_cons_of_pos (by decide)] at start
    rw [List.dropWhile_cons_of_pos (by decide)] at whole proceeds
    have inside : '\n' ∉ more.takeWhile isCommentPart := fun feed =>
      absurd (eq_true_of_mem_takeWhile feed) (by decide)
    have ends : ∀ c ∈ (more.dropWhile isCommentPart).head?, c = '\n' := fun c head => by
      simpa [isCommentPart] using eq_false_of_mem_head?_dropWhile head
    have comment := Proceeds.comment inside ends proceeds
    rw [List.takeWhile_append_dropWhile] at comment
    refine ⟨'/' :: '/' :: (more.takeWhile isCommentPart ++ front), after, ?_, ?_, comment⟩
    · rw [List.cons_append, List.cons_append, List.append_assoc, ← whole,
        List.takeWhile_append_dropWhile]
    · rw [start, Nat.add_assoc, ← size_append]
      rfl
  | case4 offset c rest _ _ starts word =>
    next ih =>
    have inside : ∀ c ∈ rest.takeWhile isWordPart, isWordPart c = true :=
      fun _ => eq_true_of_mem_takeWhile
    have ends : ∀ c ∈ (rest.dropWhile isWordPart).head?, isWordPart c = false :=
      fun _ => eq_false_of_mem_head?_dropWhile
    cases tokens with
    | nil =>
      obtain ⟨rfl, -⟩ := TokenStream.token.inj scanned
      have whole : c :: rest = (Lexeme.ofWord (String.ofList word)).spelling ++
          rest.dropWhile isWordPart := by
        rw [Lexeme.spelling_ofWord, String.toList_ofList, List.cons_append,
          List.takeWhile_append_dropWhile]
      refine ⟨[], rest.dropWhile isWordPart, whole, rfl, ?_⟩
      rw [← whole]
      exact .done _
    | cons first tokens =>
      obtain ⟨rfl, behind⟩ := TokenStream.token.inj scanned
      obtain ⟨front, after, whole, start, proceeds⟩ := ih behind
      have stepped := Proceeds.word starts inside ends proceeds
      rw [List.takeWhile_append_dropWhile] at stepped
      refine ⟨word ++ front, after, ?_, by rw [start, size_append, Nat.add_assoc], stepped⟩
      rw [List.append_assoc, ← whole, List.cons_append, List.takeWhile_append_dropWhile]
  | case5 offset rest content after closed _ _ _ next =>
    next ih =>
    have inside : ∀ c ∈ content, isQuotable c = true := fun _ => eq_true_of_mem_takeWhile
    have whole : '"' :: rest = '"' :: (content ++ '"' :: after) := by
      rw [← closed, List.takeWhile_append_dropWhile]
    cases tokens with
    | nil =>
      obtain ⟨rfl, -⟩ := TokenStream.token.inj scanned
      have spelled : '"' :: rest = (Lexeme.quoted (String.ofList content)).spelling ++ after := by
        simpa [Lexeme.spelling] using whole
      refine ⟨[], after, spelled, rfl, ?_⟩
      rw [← spelled]
      exact .done _
    | cons first tokens =>
      obtain ⟨rfl, behind⟩ := TokenStream.token.inj scanned
      obtain ⟨front, later, same, start, proceeds⟩ := ih behind
      have stepped := Proceeds.quoted inside proceeds
      rw [← whole] at stepped
      refine ⟨'"' :: content ++ ['"'] ++ front, later, ?_, ?_, stepped⟩
      · rw [whole, same]
        simp
      · rw [start, size_append, ← size_quoted, ← Nat.add_assoc, ← Nat.add_assoc]

-- What holds no line feed ends before lines that are all ended, or some of them is left.
theorem eq_append_of_ended {piece after above below : List Char} (free : '\n' ∉ piece)
    (ended : Ended above) (same : piece ++ after = above ++ below) :
    above = [] ∨ ∃ c more, above = piece ++ c :: more ∧ after = c :: more ++ below ∧
      Ended (c :: more) := by
  rcases ended with rfl | ⟨most, rfl⟩
  · exact .inl rfl
  right
  rcases List.append_eq_append_iff.1 same with ⟨left, split, behind⟩ | ⟨left, split, -⟩
  · rcases List.eq_nil_or_concat left with rfl | ⟨front, last, rfl⟩
    · rw [List.append_nil] at split
      exact absurd (split ▸ List.mem_concat_self) free
    · rw [List.concat_eq_append] at split behind
      rw [← List.append_assoc] at split
      obtain ⟨-, feed⟩ := List.append_inj' split rfl
      obtain rfl := List.singleton_inj.1 feed
      obtain ⟨c, more, first⟩ := List.exists_cons_of_ne_nil
        (List.append_ne_nil_of_right_ne_nil front (List.cons_ne_nil '\n' []))
      refine ⟨c, more, ?_, ?_, .inr ⟨front, first.symm⟩⟩
      · rw [← first, split, List.append_assoc]
      · rw [← first, behind]
  · rw [split] at free
    exact absurd (List.mem_append_left _ List.mem_concat_self) free

theorem Proceeds.lines {above lead rest : List Char} {lexemes : List Lexeme} (ended : Ended above)
    (proceeds : Proceeds (above ++ (lead ++ rest)) lexemes rest) :
    ∃ first second, lexemes = first ++ second ∧
      (∀ other, Proceeds (above ++ other) first other) ∧ Proceeds (lead ++ rest) second rest := by
  generalize whole : above ++ (lead ++ rest) = cs at proceeds
  have here {cs : List Char} {lexemes : List Lexeme} (same : [] ++ (lead ++ rest) = cs)
      (proceeds : Proceeds cs lexemes rest) :
      ∃ first second, lexemes = first ++ second ∧
        (∀ other, Proceeds ([] ++ other) first other) ∧ Proceeds (lead ++ rest) second rest := by
    subst same
    exact ⟨[], lexemes, rfl, fun other => .done other, proceeds⟩
  induction proceeds generalizing above with
  | done =>
    have none : above = [] := by
      have := congrArg List.length whole
      simp only [List.length_append] at this
      exact List.eq_nil_of_length_eq_zero (by omega)
    subst none
    exact here whole (.done _)
  | separator separates after ih =>
    cases above with
    | nil => exact here whole (.separator separates after)
    | cons c above =>
      obtain ⟨rfl, behind⟩ := List.cons.inj whole
      have below : Ended above := by
        rcases ended with none | ⟨most, some⟩
        · cases none
        · cases most with
          | nil => exact .inl (List.cons.inj some).2
          | cons d most => exact .inr ⟨most, (List.cons.inj some).2⟩
      obtain ⟨first, second, same, lines, row⟩ := ih below behind here
      exact ⟨first, second, same, fun other => .separator separates (lines other), row⟩
  | @comment body _ _ _ inside ends after ih =>
    have free : '\n' ∉ '/' :: '/' :: body := by simpa using inside
    rcases eq_append_of_ended free ended (by simpa using whole.symm) with
      rfl | ⟨c, more, rfl, rfl, below⟩
    · exact here whole (.comment inside ends after)
    · obtain ⟨first, second, same, lines, row⟩ := ih below rfl here
      refine ⟨first, second, same, fun other => ?_, row⟩
      rw [List.cons_append, List.cons_append, List.append_assoc]
      exact .comment inside ends (lines other)
  | @word letter letters _ _ _ starts inside ends after ih =>
    have free : '\n' ∉ letter :: letters := by
      have name : IsIdentifier (String.ofList (letter :: letters)) :=
        ⟨letter, letters, String.toList_ofList, starts, inside⟩
      simpa using name.newline_not_mem
    rcases eq_append_of_ended free ended (by simpa using whole.symm) with
      rfl | ⟨c, more, rfl, rfl, below⟩
    · exact here whole (.word starts inside ends after)
    · obtain ⟨first, second, rfl, lines, row⟩ := ih below rfl here
      refine ⟨_ :: first, second, rfl, fun other => ?_, row⟩
      rw [List.cons_append, List.cons_append, List.append_assoc]
      exact .word starts inside ends (lines other)
  | @quoted content _ _ _ inside after ih =>
    have free : '\n' ∉ '"' :: (content ++ ['"']) := by
      have quotable : '\n' ∉ content := fun feed => absurd (inside _ feed) (by decide)
      simpa using quotable
    rcases eq_append_of_ended free ended (by simpa using whole.symm) with
      rfl | ⟨c, more, rfl, rfl, below⟩
    · exact here whole (.quoted inside after)
    · obtain ⟨first, second, rfl, lines, row⟩ := ih below rfl here
      refine ⟨_ :: first, second, rfl, fun other => ?_, row⟩
      have quoted := Proceeds.quoted inside (lines other)
      simpa using quoted

-- Tokens that stand on a line before a rest of it, with nothing but separators between them.
inductive Row (rest : List Char) : List Char → List Lexeme → Prop where
  | blank {lead : List Char} (separate : ∀ c ∈ lead, isSeparator c = true) : Row rest lead []
  | token {blank lead : List Char} {head : Lexeme} {tail : List Lexeme}
      (separate : ∀ c ∈ blank, isSeparator c = true) (writable : head.Writable)
      (ends : head.IsWord → ∀ c ∈ (lead ++ rest).head?, isWordPart c = false)
      (after : Row rest lead tail) : Row rest (blank ++ (head.spelling ++ lead)) (head :: tail)

theorem Proceeds.row {lead rest : List Char} {lexemes : List Lexeme}
    (proceeds : Proceeds (lead ++ rest) lexemes rest) (inside : '\n' ∉ lead)
    (line : ∃ c ∈ rest.head?, c ≠ '\n') : Row rest lead lexemes := by
  generalize whole : lead ++ rest = cs at proceeds
  induction proceeds generalizing lead with
  | done =>
    obtain rfl := List.append_left_eq_self.1 whole
    exact .blank (List.forall_mem_nil _)
  | @separator c _ _ _ separates after ih =>
    obtain ⟨more, rfl⟩ := after.exists_append
    obtain rfl := @List.append_cancel_right _ _ _ (c :: more) whole
    have row := ih (fun feed => inside (List.mem_cons_of_mem c feed)) line rfl
    cases row with
    | blank separate => exact .blank (List.forall_mem_cons.2 ⟨separates, separate⟩)
    | @token blank _ _ _ separate writable ends row =>
      exact @Row.token _ (c :: blank) _ _ _ (List.forall_mem_cons.2 ⟨separates, separate⟩) writable
        ends row
  | @comment body _ _ _ _ ends after _ =>
    obtain ⟨more, rfl⟩ := after.exists_append
    obtain rfl := @List.append_cancel_right _ _ _ ('/' :: '/' :: (body ++ more))
      (by simpa using whole)
    obtain ⟨c, head, other⟩ := line
    cases more with
    | nil => exact absurd (ends c head) other
    | cons d more =>
      obtain rfl := ends d rfl
      exact absurd (by simp) inside
  | @word first letters _ _ _ starts letter ends after ih =>
    obtain ⟨more, rfl⟩ := after.exists_append
    obtain rfl := @List.append_cancel_right _ _ _ (first :: (letters ++ more))
      (by simpa using whole)
    have row := ih (fun feed => inside (by simp [feed])) line rfl
    have spelled := (Lexeme.spelling_ofWord (String.ofList (first :: letters))).trans
      String.toList_ofList
    have token := @Row.token _ [] _ (.ofWord (String.ofList (first :: letters))) _
      (List.forall_mem_nil _) (Lexeme.writable_ofWord starts letter) (fun _ => ends) row
    rwa [spelled] at token
  | @quoted content _ _ _ quotable after ih =>
    obtain ⟨more, rfl⟩ := after.exists_append
    obtain rfl := @List.append_cancel_right _ _ _ ('"' :: (content ++ '"' :: more))
      (by simpa using whole)
    have row := ih (fun feed => inside (by simp [feed])) line rfl
    have writable : (Lexeme.quoted (String.ofList content)).Writable := by
      rw [Lexeme.Writable, String.toList_ofList]
      exact ⟨fun quote => absurd (quotable _ quote) (by decide),
        fun feed => absurd (quotable _ feed) (by decide)⟩
    have token := @Row.token _ [] _ _ _ (List.forall_mem_nil _) writable (fun word => word.elim) row
    simpa [Lexeme.spelling] using token

theorem Proceeds.exists_row {front rest : List Char} {lexemes : List Lexeme}
    (proceeds : Proceeds (front ++ rest) lexemes rest) (line : ∃ c ∈ rest.head?, c ≠ '\n') :
    ∃ others own, lexemes = others ++ own ∧ Row rest (lastLine front) own := by
  obtain ⟨above, split, ended⟩ := exists_append_lastLine front
  rw [split, List.append_assoc] at proceeds
  obtain ⟨others, own, same, -, lead⟩ := proceeds.lines ended
  exact ⟨others, own, same, lead.row (newline_not_mem_lastLine front) line⟩

namespace Row

variable {rest lead : List Char} {lexemes : List Lexeme}

theorem separate_of_nil (row : Row rest lead []) : ∀ c ∈ lead, isSeparator c = true := by
  cases row with
  | blank separate => exact separate

theorem exists_cons_cons {first second : Lexeme} (row : Row rest lead (first :: second :: lexemes))
    (word : first.IsWord) (also : second.IsWord) :
    ∃ blank c more, lead = blank ++ (first.spelling ++ c :: more) ∧
      (∀ c ∈ blank, isSeparator c = true) ∧ isSeparator c = true ∧ first.Writable ∧
      Row rest more (second :: lexemes) := by
  cases row with
  | @token blank _ _ _ separate writable ends row =>
  cases row with
  | @token between _ _ _ apart written stops row =>
  cases between with
  | nil =>
    obtain ⟨letter, letters, spelled, starts, -⟩ := Lexeme.exists_cons_spelling also written
    have part := ends word letter (by simp [spelled])
    rw [isWordPart_of_isWordStart starts] at part
    cases part
  | cons c between =>
    obtain ⟨separates, apart⟩ := List.forall_mem_cons.1 apart
    exact ⟨blank, c, _, rfl, separate, separates, writable, .token apart written stops row⟩

theorem split {first second : List Lexeme} (row : Row rest lead (first ++ second)) :
    ∃ front back, lead = front ++ back ∧ Row (back ++ rest) front first ∧ Row rest back second := by
  induction first generalizing lead with
  | nil => exact ⟨[], lead, rfl, .blank (List.forall_mem_nil _), row⟩
  | cons head first ih =>
    rw [List.cons_append] at row
    cases row with
    | @token blank lead _ _ separate writable ends row =>
    obtain ⟨front, back, rfl, before, behind⟩ := ih row
    rw [List.append_assoc] at ends
    refine ⟨blank ++ (head.spelling ++ front), back, ?_, ?_, behind⟩
    · simp only [List.append_assoc]
    · exact .token separate writable ends before

theorem exists_last {last : Lexeme} (row : Row rest lead (lexemes ++ [last])) (word : last.IsWord)
    (former : ∀ lexeme ∈ lexemes.getLast?, lexeme.IsWord) :
    ∃ front gap, lead = front ++ (last.spelling ++ gap) ∧
      (∀ c ∈ front.getLast?, isSeparator c = true) ∧ (∀ c ∈ gap, isSeparator c = true) ∧
      ∀ c ∈ (gap ++ rest).head?, isWordPart c = false := by
  have alone {lead : List Char} (row : Row rest lead [last]) :
      ∃ front gap, lead = front ++ (last.spelling ++ gap) ∧
        (∀ c ∈ front, isSeparator c = true) ∧ (∀ c ∈ gap, isSeparator c = true) ∧
        ∀ c ∈ (gap ++ rest).head?, isWordPart c = false := by
    cases row with
    | token separate _ ends row => exact ⟨_, _, rfl, separate, row.separate_of_nil, ends word⟩
  rcases List.eq_nil_or_concat lexemes with rfl | ⟨more, first, rfl⟩
  · obtain ⟨front, gap, same, separate, behind⟩ := alone row
    exact ⟨front, gap, same, fun c ends => separate c (List.mem_of_getLast? ends), behind⟩
  · rw [List.concat_eq_append, List.append_assoc] at row
    obtain ⟨above, back, rfl, -, row⟩ := row.split
    obtain ⟨blank, c, lead, rfl, -, separates, -, row⟩ :=
      row.exists_cons_cons (former first (by simp)) word
    obtain ⟨front, gap, rfl, separate, behind⟩ := alone row
    refine ⟨above ++ (blank ++ (first.spelling ++ c :: front)), gap, by simp, fun d ends => ?_,
      behind⟩
    have within : d ∈ c :: front := by
      rw [← List.append_assoc, ← List.append_assoc, List.getLast?_append] at ends
      refine List.mem_of_getLast? ?_
      simpa using ends
    rcases List.mem_cons.1 within with rfl | later
    · exact separates
    · exact separate d later

end Row

end FsmWorkbench
