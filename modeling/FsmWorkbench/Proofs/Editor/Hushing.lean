import FsmWorkbench.Proofs.Editor.Suggesting
import FsmWorkbench.Proofs.Notation.Preceding
import FsmWorkbench.Proofs.Text.Resolving

set_option autoImplicit false

namespace FsmWorkbench

open Text

/-- A comment of a text: two slashes where a token may begin, and what follows them on the line. -/
structure CommentIn (cs front body rest : List Char) : Prop where
  split : cs = front ++ '/' :: '/' :: (body ++ rest)
  reached : ∃ lexemes, Proceeds cs lexemes ('/' :: '/' :: (body ++ rest))
  inside : '\n' ∉ body
  ends : ∀ c ∈ rest.head?, c = '\n'

/-- A quoted string of a text: a quote where a token may begin, and what follows up to the next. -/
structure LiteralIn (cs front content rest : List Char) : Prop where
  split : cs = front ++ '"' :: (content ++ '"' :: rest)
  reached : ∃ lexemes, Proceeds cs lexemes ('"' :: (content ++ '"' :: rest))
  inside : ∀ c ∈ content, isQuotable c = true

section Inside

variable {front part rest : List Char} {offset : Nat}

-- An offset within a part of a text is a place in the part, or it is inside a character.
theorem cut?_within (low : size front ≤ offset) (high : offset ≤ size front + size part) :
    cut? (front ++ (part ++ rest)) offset = none ∨
      ∃ typed more, part = typed ++ more ∧ offset = size front + size typed := by
  cases cut : cut? (front ++ (part ++ rest)) offset with
  | none => exact .inl rfl
  | some found =>
    right
    obtain ⟨before, after⟩ := found
    obtain ⟨same, rfl⟩ := cut?_eq_some cut
    obtain ⟨typed, rfl, behind⟩ := exists_append_of_size_le same low
    rw [size_append] at high
    obtain ⟨more, rfl, -⟩ := exists_append_of_size_le behind.symm (by omega)
    exact ⟨typed, more, rfl, size_append front typed⟩

theorem complete_within {text : String} (split : text.toList = front ++ (part ++ rest))
    (low : size front ≤ offset) (high : offset ≤ size front + size part) (model : Option Model) :
    complete text offset model = [] ∨ ∃ typed more, part = typed ++ more ∧
      offset = size front + size typed ∧
      complete text offset model = suggestions (lastLine (front ++ typed)) model := by
  rcases @cut?_within front part rest offset low high with none | ⟨typed, more, rfl, rfl⟩
  · refine .inl (complete_of_cut?_eq_none ?_ (split ▸ none))
    rw [split, size_append, size_append]
    omega
  · have whole : text.toList = (front ++ typed) ++ (more ++ rest) := by simp [split]
    exact .inr ⟨typed, more, rfl, rfl, by rw [← size_append, complete_append whole]⟩

end Inside

theorem CommentIn.complete_eq_nil {text : String} {front body rest : List Char}
    (comment : CommentIn text.toList front body rest) {offset : Nat}
    (low : size front + 2 ≤ offset) (high : offset ≤ size front + 2 + size body)
    (model : Option Model) : complete text offset model = [] := by
  have sized : size (front ++ ['/', '/']) = size front + 2 := size_append ..
  have split : text.toList = (front ++ ['/', '/']) ++ (body ++ rest) := by simp [comment.split]
  rw [← sized] at low high
  rcases complete_within split low high model with none | ⟨typed, more, rfl, -, answered⟩
  · exact none
  · have free : '\n' ∉ ['/', '/'] ++ typed := by
      simpa using fun feed => comment.inside (List.mem_append_left more feed)
    rw [answered, List.append_assoc, lastLine_append_of_not_mem free]
    exact suggestions_of_slashes ⟨lastLine front, typed, List.append_assoc ..⟩

section Words

variable {rest lead : List Char} {lexemes more : List Lexeme}

def Lexeme.word (lexeme : Lexeme) : String :=
  String.ofList lexeme.spelling

theorem Lexeme.visible_spelling {lexeme : Lexeme} (word : lexeme.IsWord)
    (writable : lexeme.Writable) :
    lexeme.spelling ≠ [] ∧ ∀ c ∈ lexeme.spelling, isBlank c = false := by
  obtain ⟨first, others, spelled, starts, inside⟩ := exists_cons_spelling word writable
  rw [spelled]
  exact ⟨List.cons_ne_nil _ _, List.forall_mem_cons.2
    ⟨isBlank_eq_false_of_isWordPart (isWordPart_of_isWordStart starts), fun c member =>
      isBlank_eq_false_of_isWordPart (inside c member)⟩⟩

theorem Row.finishedWords {last : Lexeme} (row : Row rest lead (lexemes ++ last :: more))
    (words : ∀ lexeme ∈ lexemes, lexeme.IsWord) (word : last.IsWord) (tail : List Char) :
    ∃ behind, FsmWorkbench.finishedWords (lead ++ tail) =
        lexemes.map Lexeme.word ++ FsmWorkbench.finishedWords (behind ++ tail) ∧
      Row rest behind (last :: more) := by
  induction lexemes generalizing lead with
  | nil => exact ⟨lead, rfl, row⟩
  | cons first lexemes ih =>
    obtain ⟨also, others⟩ := List.forall_mem_cons.1 words
    obtain ⟨second, behind, split, next⟩ : ∃ second behind,
        lexemes ++ last :: more = second :: behind ∧ second.IsWord := by
      cases lexemes with
      | nil => exact ⟨last, more, rfl, word⟩
      | cons second lexemes => exact ⟨second, _, rfl, others second List.mem_cons_self⟩
    rw [List.cons_append, split] at row
    obtain ⟨blank, c, lead, rfl, separate, separates, writable, row⟩ :=
      row.exists_cons_cons also next
    rw [← split] at row
    obtain ⟨behind, same, row⟩ := ih row others
    obtain ⟨some, visible⟩ := Lexeme.visible_spelling also writable
    refine ⟨behind, ?_, row⟩
    rw [List.append_assoc, List.append_assoc, List.cons_append,
      finishedWords_blank_append fun d member => isBlank_of_isSeparator (separate d member),
      finishedWords_word some visible (isBlank_of_isSeparator separates), same]
    rfl

variable {program : Program} {others : List Lexeme} {content : String}

theorem Lexeme.eq_keyword_of_word {lexeme : Lexeme} {word : Keyword} (written : lexeme.IsWord)
    (writable : lexeme.Writable) (same : lexeme.word = word.text) : lexeme = .keyword word := by
  cases lexeme with
  | keyword other =>
    have text : other.text = word.text := by
      rwa [Lexeme.word, spelling, String.ofList_toList] at same
    have found := Keyword.ofText?_text other
    rw [text, Keyword.ofText?_text] at found
    exact congrArg _ (Option.some.inj found).symm
  | name text =>
    rw [Lexeme.word, spelling, String.ofList_toList] at same
    exact absurd same (writable.2 word)
  | quoted => cases written

theorem head_of_finishedWords {blank line : List Char} {c : Char} {word : String}
    (separate : ∀ d ∈ blank, isSeparator d = true) (visible : isBlank c = false)
    (first : (finishedWords (blank ++ c :: line)).head? = some word) :
    word.toList.head? = some c := by
  have blanks : ∀ d ∈ blank, isBlank d = true := fun d member =>
    isBlank_of_isSeparator (separate d member)
  rw [finishedWords_blank_append blanks] at first
  obtain ⟨others, finished⟩ := List.head?_eq_some_iff.1 first
  obtain ⟨tail, spelled⟩ := exists_toList_of_finishedWords visible finished
  rw [spelled, List.head?_cons]

theorem Row.length_finishedWords (row : Row rest lead lexemes)
    (same : program.lexemes = others ++ (lexemes ++ .quoted content :: more)) {word : Keyword}
    (opens : word ∈ [Keyword.machine, .state, .transition]) {typed : List Char}
    (first : (FsmWorkbench.finishedWords (lead ++ '"' :: typed)).head? = some word.text) :
    6 ≤ (FsmWorkbench.finishedWords (lead ++ '"' :: typed)).length := by
  obtain ⟨run, behind, rfl, words, ends⟩ := Lexeme.exists_run lexemes
  have quoted : ∃ content more, program.lexemes = others ++ (run ++ .quoted content :: more) := by
    cases behind with
    | nil => exact ⟨content, more, by simpa using same⟩
    | cons head behind =>
      obtain ⟨text, rfl⟩ := ends head rfl
      exact ⟨text, _, by simpa using same⟩
  have starts : word.text.toList.head? ≠ some '"' ∧ word.text.toList.head? ≠ some 'w' := by
    simp only [List.mem_cons, List.not_mem_nil, or_false] at opens
    rcases opens with rfl | rfl | rfl <;> decide +kernel
  clear same
  obtain ⟨content, more, same⟩ := quoted
  cases run with
  | nil =>
    obtain ⟨blank, line, split, separate⟩ : ∃ blank line,
        lead ++ '"' :: typed = blank ++ '"' :: line ∧ ∀ c ∈ blank, isSeparator c = true := by
      cases behind with
      | nil => exact ⟨lead, typed, rfl, row.separate_of_nil⟩
      | cons head behind =>
        obtain ⟨text, rfl⟩ := ends head rfl
        cases row with
        | @token blank lead _ _ separate =>
          exact ⟨blank, text.toList ++ '"' :: (lead ++ '"' :: typed), by simp [Lexeme.spelling],
            separate⟩
    rw [split] at first
    exact absurd (head_of_finishedWords separate (by decide) first) starts.1
  | cons head run =>
    rcases List.eq_nil_or_concat run with rfl | ⟨middle, last, rfl⟩
    · obtain rfl := Program.eq_guard_of_singleton same
      cases row with
      | @token blank lead _ _ separate =>
        have split : blank ++ ((Lexeme.keyword .guard).spelling ++ lead) ++ '"' :: typed =
            blank ++ 'w' :: ('h' :: 'e' :: 'n' :: lead ++ '"' :: typed) := by
          simp [Lexeme.spelling, Keyword.text]
        rw [split] at first
        exact absurd (head_of_finishedWords separate (by decide) first) starts.2
    · rw [List.concat_eq_append] at row words same
      have whole : head :: (middle ++ [last]) ++ behind = (head :: middle) ++ last :: behind := by
        simp
      rw [whole] at row
      have writable : head.Writable := by
        cases row with
        | token _ writable => exact writable
      obtain ⟨written, others⟩ := List.forall_mem_cons.1 words
      obtain ⟨tail, finished, -⟩ := row.finishedWords
        (List.forall_mem_cons.2 ⟨written, fun l member => others l (List.mem_append_left _ member)⟩)
        (others last (by simp)) ('"' :: typed)
      rw [finished] at first ⊢
      obtain rfl := Lexeme.eq_keyword_of_word written writable (Option.some.inj first)
      have long := Program.length_of_opens same opens
      simp only [List.length_append, List.length_map, List.length_cons, List.length_nil] at long ⊢
      omega

end Words

/-- Finished words behind which something is offered, as if no quote stood among them. -/
inductive Mistaken (model : Model) : List String → Prop where
  | declaration : Mistaken model []
  | reference (before : List String) {word : String} (refers : word = "from" ∨ word = "to")
      (states : model.states ≠ []) : Mistaken model (before ++ [word])
  | guard (name source : String) {target : String} (named : target ≠ "from" ∧ target ≠ "to") :
      Mistaken model ["transition", name, "from", source, "to", target]

theorem mistaken_iff {model : Model} {words : List String}
    (long : ∀ word ∈ [Keyword.machine, .state, .transition],
      words.head? = some word.text → 6 ≤ words.length) :
    Mistaken model words ↔ ∃ context, CompletionContext.ofWords? words = some context ∧
      context.offered (some model) ≠ [] := by
  constructor
  · rintro (_ | ⟨before, refers, states⟩ | ⟨name, source, named⟩)
    · refine ⟨.declaration, rfl, ?_⟩
      rw [Ne, CompletionContext.offered_eq_nil_iff]
      simp [CompletionContext.items]
    · refine ⟨.stateName, ?_, ?_⟩
      · unfold CompletionContext.ofWords?
        rw [if_neg (by simp), if_pos (by simpa using refers)]
      · rw [Ne, CompletionContext.offered_eq_nil_iff]
        simpa [CompletionContext.items] using states
    · refine ⟨.keyword .guard, ?_, ?_⟩
      · unfold CompletionContext.ofWords?
        rw [if_neg (by simp), if_neg (by simpa using named)]
        rfl
      · rw [CompletionContext.offered_keyword]
        exact List.cons_ne_nil _ _
  · rintro ⟨context, found, offers⟩
    have starts (word : Keyword) (opens : word ∈ [Keyword.machine, .state, .transition])
        (short : words.length < 6) : words.head? ≠ some word.text := fun first =>
      absurd (long word opens first) (by omega)
    unfold CompletionContext.ofWords? at found
    split_ifs at found with none refers
    · exact none ▸ .declaration
    · obtain rfl := Option.some.inj found
      have states : model.states ≠ [] := by
        rintro none
        rw [Ne, CompletionContext.offered_eq_nil_iff] at offers
        exact offers (by simp [CompletionContext.items, none])
      rcases List.eq_nil_or_concat words with rfl | ⟨before, last, rfl⟩
      · exact absurd rfl none
      · rw [List.concat_eq_append] at refers ⊢
        exact .reference before (by simpa using refers) states
    · split at found
      case h_4 name source target =>
        exact .guard name source (by simpa using refers)
      case h_1 | h_6 | h_9 => exact absurd rfl (starts .state (by decide) (by simp))
      case h_2 | h_3 | h_7 => exact absurd rfl (starts .transition (by decide) (by simp))
      case h_5 | h_8 => exact absurd rfl (starts .machine (by decide) (by simp))
      case h_10 => cases found

theorem suggestions_ne_nil_iff {model : Model} {line : List Char}
    (long : ∀ word ∈ [Keyword.machine, .state, .transition],
      (finishedWords line).head? = some word.text → 6 ≤ (finishedWords line).length) :
    suggestions line (some model) ≠ [] ↔
      ¬['/', '/'] <:+: line ∧ Mistaken model (finishedWords line) := by
  by_cases slashes : ['/', '/'] <:+: line
  · simp [suggestions_of_slashes slashes, slashes]
  · have plain : hasComment line ≠ true := mt hasComment_iff.1 slashes
    rw [suggestions, if_neg plain, mistaken_iff long, and_iff_right slashes]
    cases CompletionContext.ofWords? (finishedWords line) <;> simp

theorem LiteralIn.exists_later {cs front content rest : List Char} {lexemes whole : List Lexeme}
    (literal : LiteralIn cs front content rest)
    (reached : Proceeds cs lexemes ('"' :: (content ++ '"' :: rest)))
    (ended : Proceeds cs whole []) :
    ∃ later, whole = lexemes ++ .quoted (String.ofList content) :: later := by
  obtain ⟨tokens, rfl, scanned⟩ := reached.exists_scan literal.split 0
  rw [TokenStream.scan_quoted literal.inside] at scanned
  obtain ⟨-, rfl⟩ := (@Proceeds.end_iff cs whole 0).1 ended
  exact ⟨_, by rw [scanned, TokenStream.lexemes_prepend, TokenStream.lexemes_token]⟩

theorem LiteralIn.suggestions_iff {text : String} {model : Model}
    (parsed : Model.parse text = .ok model) {front typed more rest : List Char}
    (literal : LiteralIn text.toList front (typed ++ more) rest) :
    suggestions (lastLine front ++ '"' :: typed) (some model) ≠ [] ↔
      ¬['/', '/'] <:+: lastLine front ++ '"' :: typed ∧
        Mistaken model (finishedWords (lastLine front ++ '"' :: typed)) := by
  refine suggestions_ne_nil_iff fun word opens first => ?_
  obtain ⟨lexemes, reached⟩ := literal.reached
  obtain ⟨program, whole, -⟩ := Model.exists_program parsed
  obtain ⟨later, same⟩ := literal.exists_later reached whole
  rw [literal.split] at reached
  obtain ⟨others, own, rfl, row⟩ := reached.exists_row ⟨'"', rfl, by decide⟩
  rw [List.append_assoc] at same
  exact row.length_finishedWords same opens first

theorem hushing_iff {text : String} {model : Model} (parsed : Model.parse text = .ok model) :
    (∀ front body rest, CommentIn text.toList front body rest → ∀ offset,
      size front + 2 ≤ offset → offset ≤ size front + 2 + size body →
        complete text offset (some model) = []) ∧
      ∀ front content rest, LiteralIn text.toList front content rest → ∀ offset,
        size front + 1 ≤ offset → offset ≤ size front + 1 + size content →
          (complete text offset (some model) ≠ [] ↔
            ∃ typed more, content = typed ++ more ∧ offset = size front + 1 + size typed ∧
              let line := lastLine front ++ '"' :: typed
              ¬['/', '/'] <:+: line ∧ Mistaken model (finishedWords line)) := by
  refine ⟨fun front body rest comment offset low high => comment.complete_eq_nil low high _,
    fun front content rest literal offset low high => ?_⟩
  have sized : size (front ++ ['"']) = size front + 1 := size_append ..
  have split : text.toList = (front ++ ['"']) ++ (content ++ '"' :: rest) := by simp [literal.split]
  have line {typed more : List Char} (same : content = typed ++ more) :
      lastLine (front ++ ['"'] ++ typed) = lastLine front ++ '"' :: typed := by
    have free : '\n' ∉ '"' :: typed := by
      have quotable : '\n' ∉ typed := fun feed =>
        absurd (literal.inside _ (same ▸ List.mem_append_left more feed)) (by decide)
      simpa using quotable
    rw [List.append_assoc, List.singleton_append, lastLine_append_of_not_mem free]
  rw [← sized] at low high ⊢
  constructor
  · intro offers
    rcases complete_within split low high (some model) with none | ⟨typed, more, rfl, rfl, answered⟩
    · exact absurd none offers
    · rw [answered, line rfl, literal.suggestions_iff parsed] at offers
      exact ⟨typed, more, rfl, rfl, offers⟩
  · rintro ⟨typed, more, rfl, rfl, offers⟩
    have whole : text.toList = (front ++ ['"'] ++ typed) ++ (more ++ '"' :: rest) := by
      simp [split]
    rw [← size_append, complete_append whole, line rfl]
    exact (literal.suggestions_iff parsed).2 offers

theorem hushing_iff_behind_slashes :
    let text := "// from \nstate A"
    ∃ model, Model.parse text = .ok model ∧ model.states ≠ [] ∧
      CommentIn text.toList [] " from ".toList "\nstate A".toList ∧
      complete text 8 (some model) = [] := by
  intro text
  let model : Model := ⟨none, [⟨⟨"A", ⟨15, 16⟩⟩, false, ⟨9, 16⟩⟩], []⟩
  have parsed : Model.parse text = .ok model := by decide +kernel
  have split : text.toList = '/' :: '/' :: (" from ".toList ++ "\nstate A".toList) := by
    decide +kernel
  have ends : "\nstate A".toList.head? = some '\n' := by decide +kernel
  have comment : CommentIn text.toList [] " from ".toList "\nstate A".toList :=
    ⟨split, ⟨[], split ▸ .done _⟩, by decide +kernel,
      fun c head => Option.some.inj (head.symm.trans ends)⟩
  exact ⟨model, parsed, List.cons_ne_nil _ _, comment,
    (hushing_iff parsed).1 _ _ _ comment 8 (by decide) (by decide +kernel)⟩

-- The guard ends in a word behind which states are offered elsewhere.
theorem complete_inside_guard :
    let text := "state A\ntransition t from A to A when \"go to \""
    ∃ model front rest, Model.parse text = .ok model ∧
      LiteralIn text.toList front "go to ".toList rest ∧
      size front + 1 + size "go to ".toList = 45 ∧
      complete text 45 (some model) = [⟨"A", .state, "State"⟩] := by
  intro text
  let state : StateDecl := ⟨⟨"A", ⟨6, 7⟩⟩, false, ⟨0, 8⟩⟩
  let model : Model := ⟨none, [state], [⟨⟨"t", ⟨19, 20⟩⟩, ⟨"A", ⟨26, 27⟩⟩, ⟨"A", ⟨31, 32⟩⟩,
    some "go to ", ⟨8, 46⟩⟩]⟩
  have scanned : TokenStream.scan 0 text.toList =
      (TokenStream.token ⟨.quoted "go to ", ⟨38, 46⟩⟩ (.finished 46)).prepend
        (TokenStream.ofText text).tokens.dropLast := by decide +kernel
  obtain ⟨front, rest, split, start, reached⟩ := TokenStream.exists_proceeds scanned
  have literal : LiteralIn text.toList front "go to ".toList rest := by
    have quotable : "go to ".toList.all isQuotable = true := by decide +kernel
    exact ⟨by simpa [Lexeme.spelling] using split, ⟨_, by simpa [Lexeme.spelling] using reached⟩,
      List.all_eq_true.1 quotable⟩
  have typed : text.toList = "state A\ntransition t from A to A when \"go to ".toList ++ ['"'] := by
    decide +kernel
  have line : lastLine "state A\ntransition t from A to A when \"go to ".toList =
      "transition t from A to A when \"go to ".toList := by decide +kernel
  have items : complete text 45 (some model) =
      CompletionContext.stateName.offered (some model) := by
    have sized : size "state A\ntransition t from A to A when \"go to ".toList = 45 := by
      decide +kernel
    rw [← sized, complete_append typed, line]
    exact suggestions_of_context (mt hasComment_iff.2 (by decide +kernel)) (by decide +kernel)
  refine ⟨model, front, rest, by decide +kernel, literal, ?_, ?_⟩
  · have sized : size "go to ".toList = 6 := by decide +kernel
    rw [Nat.zero_add] at start
    rw [← start, sized]
  · rw [items, CompletionContext.offered, CompletionContext.items]
    exact congrArg (firstOfRuns CompletionItem.same) (List.mergeSort_singleton _)

end FsmWorkbench
