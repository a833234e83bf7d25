import FsmWorkbench.Layout
import FsmWorkbench.Proofs.Layout.Rows

set_option autoImplicit false

namespace FsmWorkbench

open Text

def Piece.trimmed : Piece → Piece
  | .lexeme found => .lexeme found
  | .comment body => .comment (trimEnd body)

@[simp] theorem Piece.trimmed_comment (body : List Char) :
    (Piece.comment body).trimmed = .comment (trimEnd body) := rfl

theorem rowLexemes_trimmed (row : List Piece) :
    rowLexemes (row.map Piece.trimmed) = rowLexemes row := by
  rw [rowLexemes, List.filterMap_map, rowLexemes]
  congr 1
  funext piece
  cases piece <;> rfl

attribute [local simp] spaceOut

section Steps

variable {stage : LineStage} {c : Char} (rest : List Char)

theorem spaceOut_blank (outside : stage ≠ .quoted) (blank : isBlank c = true) :
    spaceOut stage (c :: rest) =
      spaceOut (if stage = .opening then .opening else .gap) rest := by
  have slash : c ≠ '/' := by
    rintro rfl
    exact absurd blank (by decide)
  rw [spaceOut, if_neg outside, if_neg (by simp [slash]), if_pos blank]

theorem spaceOut_comment (outside : stage ≠ .quoted) :
    spaceOut stage ('/' :: '/' :: rest) =
      (if stage = .opening then [] else [' ']) ++ trimEnd ('/' :: '/' :: rest) := by
  rw [spaceOut, if_neg outside, if_pos ⟨rfl, rfl⟩]

theorem spaceOut_visible (outside : stage ≠ .quoted) (slash : c ≠ '/')
    (visible : isBlank c = false) :
    spaceOut stage (c :: rest) =
      (if stage = .gap then [' '] else []) ++
        c :: spaceOut (if c = '"' then .quoted else .code) rest := by
  rw [spaceOut, if_neg outside, if_neg (by simp [slash]), if_neg (by simp [visible])]

end Steps

theorem ne_slash_of_isWordPart {c : Char} (part : isWordPart c = true) : c ≠ '/' := by
  rintro rfl
  exact absurd part (by decide)

theorem ne_quote_of_isWordPart {c : Char} (part : isWordPart c = true) : c ≠ '"' := by
  rintro rfl
  exact absurd part (by decide)

theorem spaceOut_word {word : List Char} (inside : ∀ c ∈ word, isWordPart c = true)
    (rest : List Char) : spaceOut .code (word ++ rest) = word ++ spaceOut .code rest := by
  induction word with
  | nil => rfl
  | cons c word ih =>
    rw [List.forall_mem_cons] at inside
    rw [List.cons_append, spaceOut_visible _ (by simp) (ne_slash_of_isWordPart inside.1)
      (isBlank_eq_false_of_isWordPart inside.1), if_neg (ne_quote_of_isWordPart inside.1),
      ih inside.2]
    rfl

theorem spaceOut_quoted {content : List Char} (unquoted : '"' ∉ content) (rest : List Char) :
    spaceOut .quoted (content ++ '"' :: rest) = content ++ '"' :: spaceOut .code rest := by
  induction content with
  | nil => simp
  | cons c content ih =>
    rw [List.mem_cons, not_or] at unquoted
    rw [List.cons_append, spaceOut, if_pos rfl, if_neg (Ne.symm unquoted.1), ih unquoted.2,
      List.cons_append]

theorem spaceOut_cons_word {stage : LineStage} (outside : stage ≠ .quoted) {first : Char}
    {more : List Char} (starts : isWordStart first = true)
    (inside : ∀ c ∈ more, isWordPart c = true) (rest : List Char) :
    spaceOut stage (first :: (more ++ rest)) =
      (if stage = .gap then [' '] else []) ++ first :: (more ++ spaceOut .code rest) := by
  have start := isWordPart_of_isWordStart starts
  rw [spaceOut_visible _ outside (ne_slash_of_isWordPart start)
    (isBlank_eq_false_of_isWordPart start), if_neg (ne_quote_of_isWordPart start),
    spaceOut_word inside]

theorem spaceOut_cons_quoted {stage : LineStage} (outside : stage ≠ .quoted) {content : List Char}
    (unquoted : '"' ∉ content) (rest : List Char) :
    spaceOut stage ('"' :: (content ++ '"' :: rest)) =
      (if stage = .gap then [' '] else []) ++ '"' :: (content ++ '"' :: spaceOut .code rest) := by
  rw [spaceOut_visible _ outside (by decide) (by decide), if_pos rfl, spaceOut_quoted unquoted]

theorem mem_spaceOut {stage : LineStage} {line : List Char} {c : Char}
    (member : c ∈ spaceOut stage line) : c = ' ' ∨ c ∈ line := by
  fun_induction spaceOut stage line with
  | case1 => cases member
  | case2 d rest ih =>
    rcases List.mem_cons.1 member with rfl | member
    · exact .inr List.mem_cons_self
    · exact (ih member).imp_right (List.mem_cons_of_mem d)
  | case3 stage d rest =>
    rcases List.mem_append.1 member with space | member
    · split at space <;> simp_all
    · exact .inr ((trimEnd_isPrefix _).subset member)
  | case4 stage d rest _ _ _ ih => exact (ih member).imp_right (List.mem_cons_of_mem d)
  | case5 stage d rest _ _ _ ih =>
    rcases List.mem_append.1 member with space | member
    · split at space <;> simp_all
    · rcases List.mem_cons.1 member with rfl | member
      · exact .inr List.mem_cons_self
      · exact (ih member).imp_right (List.mem_cons_of_mem d)

theorem head?_spaceOut_gap (line : List Char) : ∀ c ∈ (spaceOut .gap line).head?, c = ' ' := by
  induction line with
  | nil => simp
  | cons d rest ih =>
    by_cases comment : d = '/' ∧ rest.head? = some '/'
    · simp [comment]
    · cases blank : isBlank d with
      | true =>
        rw [spaceOut_blank _ (by simp) blank]
        exact ih
      | false => simp [comment, blank]

-- In front of what is not blank nothing new appears, but perhaps a space.
theorem head?_spaceOut_code (line : List Char) :
    ∀ c ∈ (spaceOut .code line).head?, c = ' ' ∨ c ∈ line.head? := by
  cases line with
  | nil => simp
  | cons d rest =>
    by_cases comment : d = '/' ∧ rest.head? = some '/'
    · simp [comment]
    · cases blank : isBlank d with
      | true =>
        rw [spaceOut_blank _ (by simp) blank]
        exact fun c head => .inl (head?_spaceOut_gap rest c head)
      | false => simp [comment, blank]

theorem Cuts.append_blank {number : Nat} {front rest : List Char} {pieces : List (Nat × Piece)}
    (blank : ∀ c ∈ front, c = ' ' ∨ c = '\t') (cut : Cuts number rest pieces) :
    Cuts number (front ++ rest) pieces := by
  induction front with
  | nil => exact cut
  | cons c front ih =>
    rw [List.forall_mem_cons] at blank
    exact .blank (blank.1.imp_right .inl) (ih blank.2)

theorem trimEnd_comment (body : List Char) :
    trimEnd ('/' :: '/' :: body) = '/' :: '/' :: trimEnd body := by
  have slashes : trimEnd ['/', '/'] = ['/', '/'] := by decide
  exact trimEnd_append slashes body

theorem eq_nil_of_comment {body rest : List Char} (ends : ∀ c ∈ rest.head?, c = '\n')
    (inside : '\n' ∉ '/' :: '/' :: (body ++ rest)) : rest = [] := by
  rcases rest with _ | ⟨c, rest⟩
  · rfl
  · have feed := ends c rfl
    simp [feed] at inside

theorem Cuts.of_comment {body : List Char} (free : '\n' ∉ body) (number : Nat) :
    Cuts number ('/' :: '/' :: trimEnd body) [(number, .comment (trimEnd body))] := by
  have trimmed : '\n' ∉ trimEnd body := fun feed => free ((trimEnd_isPrefix _).subset feed)
  have cut := Cuts.comment trimmed (by simp) (.done number)
  rwa [List.append_nil] at cut

theorem Cuts.spaced {number : Nat} {line : List Char} {pieces : List (Nat × Piece)}
    (cut : Cuts number line pieces) (inside : '\n' ∉ line) {stage : LineStage}
    (outside : stage ≠ .quoted) :
    Cuts number (spaceOut stage line)
      (pieces.map fun (number, piece) => (number, piece.trimmed)) := by
  induction cut generalizing stage with
  | done number => exact .done number
  | newline => simp at inside
  | @blank _ c _ _ blank _ ih =>
    have isBlank : isBlank c = true := isBlank_between blank
    rw [spaceOut_blank _ outside isBlank]
    exact ih (by simp_all) (by split <;> simp)
  | @comment number body rest pieces free ends after _ =>
    obtain rfl := eq_nil_of_comment ends inside
    cases after
    rw [spaceOut_comment _ outside, List.append_nil, trimEnd_comment]
    apply Cuts.append_blank
    · split <;> simp
    · exact .of_comment free number
  | @word number first more rest pieces starts part ends _ ih =>
    have later : Cuts number (spaceOut .code rest) _ := ih (by simp_all) (by simp)
    rw [spaceOut_cons_word outside starts part]
    apply Cuts.append_blank
    · split <;> simp
    · refine .word starts part ?_ later
      intro c head
      rcases head?_spaceOut_code rest c head with rfl | head
      · decide
      · exact ends c head
  | @quoted number content rest pieces unquoted free _ ih =>
    have later : Cuts number (spaceOut .code rest) _ := ih (by simp_all) (by simp)
    rw [spaceOut_cons_quoted outside unquoted]
    apply Cuts.append_blank
    · split <;> simp
    · exact .quoted unquoted free later

theorem Cuts.trimEnd {number : Nat} {line : List Char} {pieces : List (Nat × Piece)}
    (cut : Cuts number line pieces) (inside : '\n' ∉ line) :
    Cuts number (trimEnd line) (pieces.map fun (number, piece) => (number, piece.trimmed)) := by
  induction cut with
  | done number => exact .done number
  | newline => simp at inside
  | @blank _ c rest pieces blank _ ih =>
    have isBlank : isBlank c = true := isBlank_between blank
    have later := ih (by simp_all)
    rw [trimEnd_cons, if_pos isBlank]
    split
    · next none =>
      rw [none] at later
      exact later
    · exact .blank blank later
  | @comment number body rest pieces free ends after _ =>
    obtain rfl := eq_nil_of_comment ends inside
    cases after
    rw [List.append_nil, trimEnd_comment]
    exact .of_comment free number
  | @word number first more rest pieces starts part ends _ ih =>
    have later := ih (by simp_all)
    have visible : ∀ c ∈ first :: more, isBlank c = false := by
      rw [List.forall_mem_cons]
      exact ⟨isBlank_eq_false_of_isWordPart (isWordPart_of_isWordStart starts),
        fun c member => isBlank_eq_false_of_isWordPart (part c member)⟩
    rw [← List.cons_append, trimEnd_append (trimEnd_eq_self visible)]
    refine .word starts part ?_ later
    intro c head
    exact ends c (mem_head?_of_trimEnd head)
  | @quoted number content rest pieces unquoted free _ ih =>
    have later := ih (by simp_all)
    have kept : Text.trimEnd ('"' :: (content ++ ['"'])) = '"' :: (content ++ ['"']) :=
      trimEnd_concat (by decide) ('"' :: content)
    have whole := trimEnd_append kept rest
    simp only [List.cons_append, List.append_assoc, List.nil_append] at whole
    rw [whole]
    exact .quoted unquoted free later

theorem Cuts.trimStart {number : Nat} {line : List Char} {pieces : List (Nat × Piece)}
    (cut : Cuts number line pieces) (inside : '\n' ∉ line) :
    Cuts number (trimStart line) pieces := by
  induction cut with
  | done number => exact .done number
  | newline => simp at inside
  | @blank _ c rest _ blank _ ih =>
    have isBlank : isBlank c = true := isBlank_between blank
    rw [Text.trimStart, List.dropWhile_cons_of_pos isBlank]
    exact ih (by simp_all)
  | comment free ends after =>
    rw [trimStart_cons_of_visible (by decide)]
    exact .comment free ends after
  | word starts part ends after =>
    rw [trimStart_cons_of_visible
      (isBlank_eq_false_of_isWordPart (isWordPart_of_isWordStart starts))]
    exact .word starts part ends after
  | quoted unquoted free after =>
    rw [trimStart_cons_of_visible (by decide)]
    exact .quoted unquoted free after

theorem Piece.trimmed_trimmed (piece : Piece) : piece.trimmed.trimmed = piece.trimmed := by
  cases piece with
  | lexeme => rfl
  | comment body => rw [trimmed_comment, trimmed_comment, trimEnd_trimEnd]

theorem not_mem_trim {line : List Char} {c : Char} (free : c ∉ line) : c ∉ trim line := by
  intro member
  have inStart := (trimEnd_isPrefix _).subset member
  exact free ((List.dropWhile_sublist _).subset inStart)

theorem CutsRow.trim {line : List Char} {row : List Piece} (cut : CutsRow line row)
    (inside : '\n' ∉ line) : CutsRow (trim line) (row.map Piece.trimmed) := by
  intro number
  have started : '\n' ∉ Text.trimStart line :=
    fun feed => inside ((List.dropWhile_sublist _).subset feed)
  have trimmed : Cuts number (Text.trim line) _ := ((cut number).trimStart inside).trimEnd started
  simpa [Function.comp_def] using trimmed

theorem CutsRow.spaced {line : List Char} {row : List Piece} (cut : CutsRow line row)
    (inside : '\n' ∉ line) :
    CutsRow (spaceOut .opening (Text.trim line)) (row.map Piece.trimmed) := by
  intro number
  have spaced := (cut.trim inside number).spaced (not_mem_trim inside)
    (show LineStage.opening ≠ .quoted by simp)
  simpa [Function.comp_def, Piece.trimmed_trimmed] using spaced

end FsmWorkbench
