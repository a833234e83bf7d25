import FsmWorkbench.Proofs.Layout.Stability
import FsmWorkbench.Proofs.Notation.Proceeding

set_option autoImplicit false

namespace FsmWorkbench

open Text

section Pieces

def Piece.spelling : Piece → List Char
  | .lexeme found => found.spelling
  | .comment body => '/' :: '/' :: body

/-- Pieces that are written one behind the other, with at most one space between two of them. -/
inductive SingleSpaced : List Char → List Piece → Prop where
  | last (piece : Piece) : SingleSpaced piece.spelling [piece]
  | close {line : List Char} {row : List Piece} (piece : Piece) (after : SingleSpaced line row) :
      SingleSpaced (piece.spelling ++ line) (piece :: row)
  | apart {line : List Char} {row : List Piece} (piece : Piece) (after : SingleSpaced line row) :
      SingleSpaced (piece.spelling ++ ' ' :: line) (piece :: row)

-- The blanks that were passed over make the only difference.
theorem spaceOut_gap (line : List Char) :
    spaceOut .gap line =
      (if spaceOut .opening line = [] then [] else [' ']) ++ spaceOut .opening line := by
  induction line with
  | nil => rfl
  | cons c rest ih =>
    by_cases comment : c = '/' ∧ rest.head? = some '/'
    · obtain ⟨rfl, second⟩ := comment
      obtain ⟨more, rfl⟩ := List.head?_eq_some_iff.1 second
      simp [spaceOut_comment, trimEnd_comment]
    · cases blank : isBlank c with
      | true =>
        rw [spaceOut_blank _ (by simp) blank, spaceOut_blank _ (by simp) blank]
        exact ih
      | false => simp [spaceOut, comment, blank]

theorem spaceOut_code (line : List Char) :
    spaceOut .code line = spaceOut .opening line ∨ spaceOut .code line = spaceOut .gap line := by
  cases line with
  | nil => exact .inl rfl
  | cons c rest =>
    by_cases comment : c = '/' ∧ rest.head? = some '/'
    · right
      simp [spaceOut, comment]
    · cases blank : isBlank c with
      | true =>
        right
        rw [spaceOut_blank _ (by simp) blank, spaceOut_blank _ (by simp) blank]
        rfl
      | false =>
        left
        simp [spaceOut, comment, blank]

variable {line : List Char} {row : List Piece}

theorem SingleSpaced.spaceOut_code {piece : Piece}
    (after : row ≠ [] → SingleSpaced (spaceOut .opening line) row)
    (blank : row = [] → spaceOut .opening line = []) :
    SingleSpaced (piece.spelling ++ spaceOut .code line) (piece :: row) := by
  have gap := spaceOut_gap line
  by_cases none : row = []
  · have empty : spaceOut .code line = [] := by
      rcases FsmWorkbench.spaceOut_code line with same | same <;> simp [same, gap, blank none]
    rw [none, empty, List.append_nil]
    exact .last piece
  · have behind := after none
    rcases FsmWorkbench.spaceOut_code line with same | same
    · rw [same]
      exact .close piece behind
    · by_cases empty : spaceOut .opening line = []
      · rw [same, gap, if_pos empty]
        exact .close piece behind
      · rw [same, gap, if_neg empty]
        exact .apart piece behind

theorem spaceOut_opening_of_isBlank (blank : ∀ c ∈ line, isBlank c = true) :
    spaceOut .opening line = [] := by
  induction line with
  | nil => rfl
  | cons c rest ih =>
    obtain ⟨first, others⟩ := List.forall_mem_cons.1 blank
    rw [spaceOut_blank _ (by simp) first]
    exact ih others

theorem Cuts.singleSpaced {number : Nat} {pieces : List (Nat × Piece)}
    (cut : Cuts number line pieces) (inside : '\n' ∉ line) (some : pieces ≠ []) :
    SingleSpaced (spaceOut .opening line) (pieces.map fun (_, piece) => piece.trimmed) := by
  have empty {number : Nat} {rest : List Char} {pieces : List (Nat × Piece)}
      (after : Cuts number rest pieces)
      (none : (pieces.map fun (_, piece) => piece.trimmed) = []) :
      spaceOut .opening rest = [] := by
    obtain rfl := List.map_eq_nil_iff.1 none
    exact spaceOut_opening_of_isBlank after.isBlank_of_nil
  induction cut with
  | done => exact absurd rfl some
  | newline => simp at inside
  | @blank _ c _ _ blank _ ih =>
    have isBlank : isBlank c = true := isBlank_between blank
    rw [spaceOut_blank _ (by simp) isBlank]
    exact ih (by simp_all) some
  | @comment number body rest pieces free ends after _ =>
    obtain rfl := eq_nil_of_comment ends inside
    cases after
    rw [spaceOut_comment _ (by simp), List.append_nil, trimEnd_comment]
    exact .last (.comment (Text.trimEnd body))
  | @word number first more rest pieces starts part ends after ih =>
    let word := Piece.lexeme (.ofWord (String.ofList (first :: more)))
    have spelled : spaceOut .opening (first :: (more ++ rest)) =
        word.spelling ++ spaceOut .code rest := by
      rw [spaceOut_cons_word (by simp) starts part, Piece.spelling, Lexeme.spelling_ofWord,
        String.toList_ofList]
      rfl
    rw [spelled]
    refine .spaceOut_code (fun more => ?_) (empty after)
    exact ih (by simp_all) (by simpa using more)
  | @quoted number content rest pieces unquoted free after ih =>
    let string := Piece.lexeme (.quoted (String.ofList content))
    have spelled : spaceOut .opening ('"' :: (content ++ '"' :: rest)) =
        string.spelling ++ spaceOut .code rest := by
      rw [spaceOut_cons_quoted (by simp) unquoted, Piece.spelling, Lexeme.spelling,
        String.toList_ofList]
      simp
    rw [spelled]
    refine .spaceOut_code (fun more => ?_) (empty after)
    exact ih (by simp_all) (by simpa using more)

end Pieces

section Lines

def isShown (line : List Char) : Bool :=
  !(trim line).isEmpty

@[simp] theorem isShown_nil : isShown [] = false := rfl

theorem isShown_eq_false_iff {line : List Char} :
    isShown line = false ↔ ∀ c ∈ line, isBlank c = true := by
  rw [isShown, Bool.not_eq_false', List.isEmpty_iff, trim_eq_nil_iff]

theorem isShown_of_mem {line : List Char} {c : Char} (member : c ∈ line)
    (visible : isBlank c = false) : isShown line = true := by
  by_contra hidden
  have blank := isShown_eq_false_iff.1 (Bool.eq_false_of_not_eq_true hidden) c member
  simp [visible] at blank

def laidLine (indent line : List Char) : List Char :=
  (if opensMachine (spaceOut .opening (trim line)) then [] else indent) ++
    spaceOut .opening (trim line)

variable {indent : List Char} {gap written : Bool} {line : List Char}

theorem exists_cons_of_isShown (shown : isShown line = true) :
    ∃ c rest, spaceOut .opening (trim line) = c :: rest ∧ isBlank c = false := by
  have some : (spaceOut .opening (trim line)).isEmpty = false := by
    rw [isEmpty_spaceOut_trim]
    simpa [isShown] using shown
  have head := head?_spaceOut_opening (trim line)
  cases spaced : spaceOut .opening (trim line) with
  | nil => simp [spaced] at some
  | cons c rest =>
    rw [spaced] at head
    exact ⟨c, rest, rfl, head c rfl⟩

theorem isShown_laidLine (shown : isShown line = true) : isShown (laidLine indent line) = true := by
  obtain ⟨c, rest, spaced, visible⟩ := exists_cons_of_isShown shown
  rw [laidLine, spaced]
  exact isShown_of_mem (List.mem_append_right _ List.mem_cons_self) visible

theorem laidLine_ne_nil (shown : isShown line = true) : laidLine indent line ≠ [] := by
  intro none
  have seen : isShown (laidLine indent line) = true := isShown_laidLine shown
  rw [none] at seen
  cases seen

theorem laidLines_hidden (hidden : isShown line = false) (rest : List (List Char)) :
    laidLines indent gap written (line :: rest) = laidLines indent written written rest := by
  rw [laidLines, if_pos (by simpa [isShown] using hidden)]

theorem laidLines_shown (shown : isShown line = true) (rest : List (List Char)) :
    laidLines indent gap written (line :: rest) =
      (if gap then [[]] else []) ++ laidLine indent line :: laidLines indent false true rest := by
  rw [laidLines, if_neg (by simpa [isShown] using shown)]
  rfl

theorem laidLines_append_hidden {between : List (List Char)}
    (hidden : ∀ line ∈ between, isShown line = false) (rest : List (List Char)) :
    laidLines indent gap true (between ++ rest) =
      laidLines indent (gap || !between.isEmpty) true rest := by
  induction between generalizing gap with
  | nil => simp
  | cons first more ih =>
    obtain ⟨front, others⟩ := List.forall_mem_cons.1 hidden
    rw [List.cons_append, laidLines_hidden front, ih others]
    simp

theorem mem_laidLines_iff {lines : List (List Char)} {row : List Char} (some : row ≠ []) :
    row ∈ laidLines indent gap written lines ↔
      ∃ line ∈ lines, isShown line = true ∧ row = laidLine indent line := by
  induction lines generalizing gap written with
  | nil => simp [laidLines]
  | cons line rest ih =>
    cases shown : isShown line with
    | false => simp [laidLines_hidden shown, shown, ih]
    | true => cases gap <;> simp [laidLines_shown shown, shown, some, ih]

theorem countP_laidLines (lines : List (List Char)) :
    (laidLines indent gap written lines).countP isShown = lines.countP isShown := by
  induction lines generalizing gap written with
  | nil => rfl
  | cons line rest ih =>
    cases shown : isShown line with
    | false => simp [laidLines_hidden shown, shown, ih]
    | true => cases gap <;> simp [laidLines_shown shown, shown, isShown_laidLine shown, ih]

theorem exists_laidLines_append (shown : isShown line = true) (above rest : List (List Char)) :
    ∃ parting, (parting = [] ∨ parting = [[]]) ∧
      laidLines indent gap written (above ++ line :: rest) =
        laidLines indent gap written above ++
          (parting ++ laidLine indent line :: laidLines indent false true rest) := by
  induction above generalizing gap written with
  | nil =>
    refine ⟨if gap then [[]] else [], ?_, laidLines_shown shown rest⟩
    cases gap <;> simp
  | cons first above ih =>
    cases visible : isShown first with
    | false =>
      obtain ⟨parting, empty, whole⟩ := @ih written written
      refine ⟨parting, empty, ?_⟩
      rw [List.cons_append, laidLines_hidden visible, laidLines_hidden visible, whole]
    | true =>
      obtain ⟨parting, empty, whole⟩ := @ih false true
      refine ⟨parting, empty, ?_⟩
      rw [List.cons_append, laidLines_shown visible, laidLines_shown visible, whole,
        List.append_assoc, List.cons_append]

theorem exists_top_laidLines (shown : isShown line = true) (above rest : List (List Char)) :
    ∃ top, laidLines indent gap written (above ++ line :: rest) =
        top ++ laidLine indent line :: laidLines indent false true rest ∧
      top.countP isShown = above.countP isShown ∧
      ∀ row ≠ [], row ∈ top ↔ ∃ other ∈ above, isShown other = true ∧
        row = laidLine indent other := by
  obtain ⟨parting, empty, whole⟩ := exists_laidLines_append shown above rest
  refine ⟨laidLines indent gap written above ++ parting, ?_, ?_, fun row some => ?_⟩
  · rw [whole, List.append_assoc]
  · rw [List.countP_append, countP_laidLines]
    rcases empty with rfl | rfl <;> simp
  · rw [List.mem_append, mem_laidLines_iff some]
    refine or_iff_left fun member => ?_
    rcases empty with rfl | rfl <;> simp_all

theorem isChain_laidLines (lines : List (List Char)) :
    (laidLines indent gap written lines).IsChain fun upper lower =>
      isShown upper = true ∨ isShown lower = true := by
  induction lines generalizing gap written with
  | nil => exact .nil
  | cons line rest ih =>
    cases shown : isShown line with
    | false =>
      rw [laidLines_hidden shown]
      exact ih
    | true =>
      have visible : isShown (laidLine indent line) = true := isShown_laidLine shown
      have chain := List.isChain_cons.2 ⟨fun lower _ => .inl visible, @ih false true⟩
      rw [laidLines_shown shown]
      cases gap with
      | false => exact chain
      | true => exact List.isChain_cons.2 ⟨by simp [visible], chain⟩

theorem isShown_of_head?_laidLines {lines : List (List Char)} :
    ∀ row ∈ (laidLines indent false false lines).head?, isShown row = true := by
  induction lines with
  | nil => simp [laidLines]
  | cons line rest ih =>
    cases shown : isShown line with
    | false =>
      rw [laidLines_hidden shown]
      exact ih
    | true => simp [laidLines_shown shown, isShown_laidLine shown]

theorem isShown_of_getLast?_laidLines {lines : List (List Char)} :
    ∀ row ∈ (laidLines indent gap written lines).getLast?, isShown row = true := by
  induction lines generalizing gap written with
  | nil => simp [laidLines]
  | cons line rest ih =>
    cases shown : isShown line with
    | false =>
      rw [laidLines_hidden shown]
      exact ih
    | true =>
      have later := @ih false true
      rw [laidLines_shown shown, List.getLast?_append, List.getLast?_cons]
      cases last : (laidLines indent false true rest).getLast? with
      | none => simp [isShown_laidLine shown]
      | some other => simpa [last] using later

/-- How the lines of a layout stand to those they were made from. Of blank lines between two
others one is left, and all other blank lines are gone. -/
structure Shaped (source laid : List (List Char)) : Prop where
  opens : ∀ row ∈ laid.head?, isShown row = true
  closes : ∀ row ∈ laid.getLast?, isShown row = true
  parted : laid.IsChain fun upper lower => isShown upper = true ∨ isShown lower = true
  counted : laid.countP isShown = source.countP isShown
  gaps {above between below : List (List Char)} {first second : List Char}
    (split : source = above ++ first :: (between ++ second :: below))
    (shownFirst : isShown first = true) (shownSecond : isShown second = true)
    (hidden : ∀ line ∈ between, isShown line = false) :
    ∃ top upper lower rest,
      laid = top ++ upper :: ((if between = [] then [] else [[]]) ++ lower :: rest) ∧
        isShown upper = true ∧ isShown lower = true ∧ top.countP isShown = above.countP isShown

theorem shaped_laidLines (indent : List Char) (lines : List (List Char)) :
    Shaped lines (laidLines indent false false lines) where
  opens := isShown_of_head?_laidLines
  closes := isShown_of_getLast?_laidLines
  parted := isChain_laidLines lines
  counted := countP_laidLines lines
  gaps {above between below first second} split shownFirst shownSecond hidden := by
    obtain ⟨top, whole, counted, -⟩ := @exists_top_laidLines indent false false first shownFirst
      above (between ++ second :: below)
    refine ⟨top, laidLine indent first, laidLine indent second, laidLines indent false true below,
      ?_, isShown_laidLine shownFirst, isShown_laidLine shownSecond, counted⟩
    rw [split, whole, laidLines_append_hidden hidden, laidLines_shown shownSecond]
    cases between <;> rfl

theorem laidLines_eq_nil_iff {lines : List (List Char)} :
    laidLines indent gap written lines = [] ↔ ∀ line ∈ lines, isShown line = false := by
  induction lines generalizing gap written with
  | nil => simp [laidLines]
  | cons line rest ih =>
    cases shown : isShown line with
    | false => simp [laidLines_hidden shown, shown, ih]
    | true => simp [laidLines_shown shown, shown]

end Lines

theorem forall_isShown_lines_iff {text : List Char} :
    (∀ line ∈ lines text, isShown line = false) ↔ ∀ c ∈ text, isBlank c = true := by
  have feed : isBlank '\n' = true := by decide
  have carriage : isBlank '\r' = true := by decide
  simp only [isShown_eq_false_iff]
  fun_induction lines text with
  | case1 => simp
  | case2 rest ih => simp [feed, ih]
  | case3 rest ih => simp [feed, carriage, ih]
  | case4 c rest _ _ none => simp [lines_eq_nil_iff.1 none]
  | case5 c rest _ _ line more split ih =>
    rw [split, List.forall_mem_cons] at ih
    rw [List.forall_mem_cons, List.forall_mem_cons, List.forall_mem_cons, and_assoc]
    exact and_congr_right' ih

/-- A line of a layout: without blanks at its end, and with nothing but an indent in front of its
pieces and at most one space between two of them. -/
structure LaidRow (indent row : List Char) : Prop where
  ended : trimEnd row = row
  spaced : row = [] ∨ ∃ front line pieces, row = front ++ line ∧ (front = [] ∨ front = indent) ∧
    CutsRow row pieces ∧ SingleSpaced line pieces

theorem trimEnd_append_eq_self (front : List Char) {rest : List Char} (some : rest ≠ [])
    (kept : trimEnd rest = rest) : trimEnd (front ++ rest) = front ++ rest := by
  induction front with
  | nil => exact kept
  | cons c front ih =>
    refine trimEnd_cons_eq_self_iff.2 ⟨ih, fun none => ?_⟩
    exact absurd (List.append_eq_nil_iff.1 none).2 some

theorem laidRow_laidLine {indent line : List Char} {row : List Piece}
    (plain : ∀ c ∈ indent, c = ' ' ∨ c = '\t') (cut : CutsRow line row) (inside : '\n' ∉ line)
    (shown : isShown line = true) : LaidRow indent (laidLine indent line) := by
  have some : row ≠ [] := by
    rw [isShown, cut.isEmpty_trim] at shown
    simpa using shown
  have written : spaceOut .opening (trim line) ≠ [] := by
    obtain ⟨c, rest, spaced, -⟩ := exists_cons_of_isShown shown
    simp [spaced]
  let front := if opensMachine (spaceOut .opening (trim line)) then [] else indent
  have indented : front = [] ∨ front = indent := ite_eq_or_eq ..
  have blank : ∀ c ∈ front, c = ' ' ∨ c = '\t' := by
    rcases indented with none | same
    · simp [none]
    · exact same ▸ plain
  have pieces := (cut.trim inside 0).singleSpaced (not_mem_trim inside) (by simpa using some)
  constructor
  · exact trimEnd_append_eq_self front written (trimEnd_spaceOut (trimEnd_trimEnd _))
  · refine .inr ⟨front, spaceOut .opening (trim line), row.map Piece.trimmed, rfl, indented, ?_, ?_⟩
    · exact fun number => (cut.spaced inside number).append_blank blank
    · simpa [Function.comp_def, Piece.trimmed_trimmed] using pieces

theorem laidRow_of_mem_laidLines {text : String} {model : Model}
    (read : Model.parse text = .ok model) {indent : List Char}
    (plain : ∀ c ∈ indent, c = ' ' ∨ c = '\t') :
    ∀ row ∈ laidLines indent false false (text.toList.splitOn '\n'), LaidRow indent row := by
  obtain ⟨pieces, cut, -⟩ := parse_outline_iff.1 ⟨model, read, rfl⟩
  obtain ⟨rows, each, -⟩ := cut.exists_rows
  intro row member
  by_cases some : row = []
  · exact some ▸ ⟨rfl, .inl rfl⟩
  · obtain ⟨line, within, shown, rfl⟩ := (mem_laidLines_iff some).1 member
    obtain ⟨found, -, cuts⟩ := exists_cutsRow_of_mem each line within
    exact laidRow_laidLine plain cuts (newline_not_mem_of_mem_splitOn within) shown

theorem LaidRow.exists_concat {indent row : List Char} (laid : LaidRow indent row)
    (shown : isShown row = true) : ∃ front last, row = front ++ [last] ∧ isBlank last = false := by
  rcases List.eq_nil_or_concat row with rfl | ⟨front, last, rfl⟩
  · cases shown
  · refine ⟨front, last, List.concat_eq_append, ?_⟩
    by_contra blank
    have ended := laid.ended
    rw [List.concat_eq_append, trimEnd_eq_rdropWhile,
      List.rdropWhile_concat_pos _ _ _ (Bool.eq_true_of_not_eq_false blank)] at ended
    have shorter := (List.rdropWhile_prefix isBlank (l := front)).length_le
    simp [ended] at shorter

theorem shaping_exact {text : String} {model : Model} (read : Model.parse text = .ok model)
    (options : LayoutOptions) :
    ∃ laid rows, (Formatter.layout .standard).format text options = .ok laid ∧
      laid.toList = rows.flatMap (· ++ ['\n']) ∧ (∀ row ∈ rows, '\n' ∉ row) ∧
      (laid = "" ↔ ∀ c ∈ text.toList, isBlank c = true) ∧
      (laid ≠ "" → ∃ body last, laid.toList = body ++ [last, '\n'] ∧ isBlank last = false) ∧
      Shaped (lines text.toList) rows ∧
      ∀ row ∈ rows, LaidRow (bodyIndent options model.machine.isSome) row := by
  let indent := bodyIndent options model.machine.isSome
  let rows := laidLines indent false false (lines text.toList)
  have plain : ∀ c ∈ indent, c = ' ' ∨ c = '\t' := plain_bodyIndent _ _
  have whole : (layoutAs options model text).toList = rows.flatMap (· ++ ['\n']) := by
    rw [toList_layoutAs, ← laidLines_lines]
  have shaped : Shaped (lines text.toList) rows := shaped_laidLines indent (lines text.toList)
  have none : layoutAs options model text = "" ↔ rows = [] := by
    rw [← String.toList_eq_nil_iff, whole, List.flatMap_eq_nil_iff, List.eq_nil_iff_forall_not_mem]
    simp
  have each : ∀ row ∈ rows, LaidRow indent row := by
    have found := laidRow_of_mem_laidLines read plain
    rwa [← laidLines_lines] at found
  refine ⟨_, rows, format_of_parse read options, whole, ?_, ?_, fun some => ?_, shaped, each⟩
  · exact newline_not_mem_laidLines plain fun line => newline_not_mem_of_mem_lines
  · rw [none, laidLines_eq_nil_iff, forall_isShown_lines_iff]
  · rcases List.eq_nil_or_concat rows with empty | ⟨above, row, split⟩
    · exact absurd (none.2 empty) some
    · rw [List.concat_eq_append] at split
      have member : row ∈ rows := by simp [split]
      obtain ⟨front, last, rfl, visible⟩ :=
        (each row member).exists_concat (shaped.closes row (by simp [split]))
      exact ⟨above.flatMap (· ++ ['\n']) ++ front, last, by simp [whole, split], visible⟩

theorem shaping_exact_around_slashes :
    ∃ (model : Model) (rows : List (List Char)),
      Model.parse "\r\ntransition t  from A to A when \"x  //\"//\r\n\t\n\nstate A" = .ok model ∧
        rows.flatMap (· ++ ['\n']) =
          "transition t from A to A when \"x  //\" //\n\nstate A\n".toList ∧
        Shaped (lines
          "\r\ntransition t  from A to A when \"x  //\"//\r\n\t\n\nstate A".toList) rows ∧
        ∀ row ∈ rows, LaidRow (bodyIndent .standard model.machine.isSome) row := by
  have parsed :
      Model.parse "\r\ntransition t  from A to A when \"x  //\"//\r\n\t\n\nstate A" =
        .ok ⟨none, [⟨⟨"A", ⟨53, 54⟩⟩, false, ⟨47, 54⟩⟩],
          [⟨⟨"t", ⟨13, 14⟩⟩, ⟨"A", ⟨21, 22⟩⟩, ⟨"A", ⟨26, 27⟩⟩, some "x  //", ⟨2, 40⟩⟩]⟩ := by
    cbv
  obtain ⟨laid, rows, formatted, whole, -, -, -, shaped, each⟩ := shaping_exact parsed .standard
  refine ⟨_, rows, parsed, ?_, shaped, each⟩
  rw [format_of_parse parsed] at formatted
  rw [← whole, ← Except.ok.inj formatted]
  decide +kernel

end FsmWorkbench
