import FsmWorkbench.Proofs.Layout.Spacing
import FsmWorkbench.Proofs.Notation.Descent
import FsmWorkbench.Services.Service

set_option autoImplicit false

namespace FsmWorkbench

open Text

def laidLines (indent : List Char) (gap written : Bool) : List (List Char) → List (List Char)
  | [] => []
  | line :: rest =>
    if (trim line).isEmpty then laidLines indent written written rest
    else
      let spaced := spaceOut .opening (trim line)
      (if gap then [[]] else []) ++
        ((if opensMachine spaced then [] else indent) ++ spaced) :: laidLines indent false true rest

theorem layoutLines_eq (indent : List Char) (gap written : Bool) (lines : List (List Char)) :
    layoutLines indent gap written lines =
      (laidLines indent gap written lines).flatMap (· ++ ['\n']) := by
  fun_induction layoutLines indent gap written lines with
  | case1 => rfl
  | case2 gap written line rest content blank ih =>
    rw [laidLines, if_pos blank, ih]
  | case3 gap written line rest content visible spaced ih =>
    rw [laidLines, if_neg visible, ih]
    cases gap <;> simp [spaced, content]

theorem laidLines_congr {indent : List Char} {gap written : Bool} {first second : List (List Char)}
    (same : first.map trim = second.map trim) :
    laidLines indent gap written first = laidLines indent gap written second := by
  induction first generalizing gap written second with
  | nil =>
    obtain rfl := List.map_eq_nil_iff.1 same.symm
    rfl
  | cons line rest ih =>
    cases second with
    | nil => cases same
    | cons other more =>
      obtain ⟨head, tail⟩ := List.cons.inj same
      rw [laidLines, laidLines, head, ih tail, ih tail]

theorem laidLines_append_blank {indent : List Char} {gap written : Bool}
    (lines : List (List Char)) (count : Nat) :
    laidLines indent gap written (lines ++ List.replicate count []) =
      laidLines indent gap written lines := by
  induction lines generalizing gap written with
  | nil =>
    induction count generalizing gap with
    | zero => rfl
    | succ count ih => exact ih
  | cons line rest ih => rw [List.cons_append, laidLines, laidLines, ih, ih]

-- A carriage return before a line end is trimmed away, so it may be left in its line.
theorem laidLines_lines (indent : List Char) (gap written : Bool) (text : List Char) :
    laidLines indent gap written (lines text) =
      laidLines indent gap written (text.splitOn '\n') := by
  obtain ⟨count, same⟩ := exists_map_trimEnd_splitOn text
  have trims : (text.splitOn '\n').map trim =
      (lines text ++ List.replicate count []).map trim := by
    have both : trim = trimStart ∘ trimEnd := funext fun line => (trimStart_trimEnd line).symm
    rw [both, ← List.map_map, ← List.map_map, same, List.map_append, List.map_append,
      List.map_append, List.map_replicate, List.map_replicate, List.map_replicate]
    rfl
  rw [laidLines_congr trims, laidLines_append_blank]

theorem newline_not_mem_spaceOut {line : List Char} (free : '\n' ∉ line) :
    '\n' ∉ spaceOut .opening (trim line) := by
  intro feed
  rcases mem_spaceOut feed with space | member
  · exact absurd space (by decide)
  · exact not_mem_trim free member

theorem newline_not_mem_laidLines {indent : List Char} (plain : ∀ c ∈ indent, c = ' ' ∨ c = '\t')
    {gap written : Bool} {lines : List (List Char)} (free : ∀ line ∈ lines, '\n' ∉ line) :
    ∀ line ∈ laidLines indent gap written lines, '\n' ∉ line := by
  have level : '\n' ∉ indent := by
    intro feed
    simpa using plain _ feed
  induction lines generalizing gap written with
  | nil => simp [laidLines]
  | cons line rest ih =>
    rw [List.forall_mem_cons] at free
    rw [laidLines]
    split
    · exact ih free.2
    · intro laid member
      have spaced := newline_not_mem_spaceOut free.1
      rcases List.mem_append.1 member with empty | member
      · split at empty <;> simp_all
      · rcases List.mem_cons.1 member with rfl | member
        · split <;> simp [level, spaced]
        · exact ih free.2 laid member

theorem exists_rows_laidLines {indent : List Char} (plain : ∀ c ∈ indent, c = ' ' ∨ c = '\t')
    {lines : List (List Char)} {rows : List (List Piece)}
    (cut : List.Forall₂ CutsRow lines rows) (free : ∀ line ∈ lines, '\n' ∉ line)
    (gap written : Bool) :
    ∃ laid, List.Forall₂ CutsRow (laidLines indent gap written lines) laid ∧
      (laid.filter fun row => !row.isEmpty) =
        (rows.filter fun row => !row.isEmpty).map (·.map Piece.trimmed) := by
  induction cut generalizing gap written with
  | nil => exact ⟨[], .nil, rfl⟩
  | @cons line row lines rows first _ ih =>
    rw [List.forall_mem_cons] at free
    rw [laidLines, first.isEmpty_trim]
    split
    · next none =>
      obtain ⟨laid, later, same⟩ := ih free.2 written written
      exact ⟨laid, later, by simpa [none] using same⟩
    · next some =>
      obtain ⟨laid, later, same⟩ := ih free.2 false true
      have spaced := first.spaced free.1
      let spacedLine := (if opensMachine (spaceOut .opening (trim line)) then [] else indent) ++
        spaceOut .opening (trim line)
      have indented : CutsRow spacedLine (row.map Piece.trimmed) := by
        intro number
        apply Cuts.append_blank
        · split
          · simp
          · exact plain
        · exact spaced number
      refine ⟨(if gap then [[]] else []) ++ row.map Piece.trimmed :: laid, ?_, ?_⟩
      · cases gap with
        | false => exact .cons indented later
        | true => exact .cons (fun number => .done number) (.cons indented later)
      · cases gap <;> simp [some, same]

theorem plain_indent (options : LayoutOptions) :
    ∀ c ∈ options.indent, c = ' ' ∨ c = '\t' := by
  intro c member
  rw [LayoutOptions.indent] at member
  split at member <;> simp_all

theorem numbered_map (change : Piece → Piece) (number : Nat) (rows : List (List Piece)) :
    numbered number (rows.map (·.map change)) =
      (numbered number rows).map fun (line, piece) => (line, change piece) := by
  induction rows generalizing number with
  | nil => rfl
  | cons row rows ih => simp [numbered, ih]

theorem lexemesOf_onCodeLines (text : List Char) (pieces : List (Nat × Piece)) :
    lexemesOf (onCodeLines text pieces) = lexemesOf pieces := by
  rw [lexemesOf, onCodeLines, List.filterMap_map]
  rfl

theorem lexemesOf_trimmed (pieces : List (Nat × Piece)) :
    lexemesOf (pieces.map fun (line, piece) => (line, piece.trimmed)) = lexemesOf pieces := by
  rw [lexemesOf, List.filterMap_map, lexemesOf]
  congr 1
  funext entry
  obtain ⟨line, piece⟩ := entry
  cases piece <;> rfl

def bodyIndent (options : LayoutOptions) (machine : Bool) : List Char :=
  if options.indentBody && machine then options.indent else []

theorem plain_bodyIndent (options : LayoutOptions) (machine : Bool) :
    ∀ c ∈ bodyIndent options machine, c = ' ' ∨ c = '\t' := by
  rw [bodyIndent]
  split
  · exact plain_indent options
  · simp

theorem toList_layoutAs (options : LayoutOptions) (model : Model) (text : String) :
    (layoutAs options model text).toList =
      (laidLines (bodyIndent options model.machine.isSome) false false
        (text.toList.splitOn '\n')).flatMap (· ++ ['\n']) := by
  rw [layoutAs, String.toList_ofList, layoutLines_eq, laidLines_lines, bodyIndent]

theorem splitOn_layoutAs (options : LayoutOptions) (model : Model) (text : String) :
    (layoutAs options model text).toList.splitOn '\n' =
      laidLines (bodyIndent options model.machine.isSome) false false
        (text.toList.splitOn '\n') ++ [[]] := by
  rw [toList_layoutAs]
  exact splitOn_flatMap <| newline_not_mem_laidLines (plain_bodyIndent _ _)
    fun line => newline_not_mem_of_mem_splitOn

theorem cuts_layoutAs {text : String} {pieces : List (Nat × Piece)}
    (cut : Cuts 0 text.toList pieces) (options : LayoutOptions) (model : Model) :
    ∃ laid, Cuts 0 (layoutAs options model text).toList laid ∧
      onCodeLines (layoutAs options model text).toList laid =
        (onCodeLines text.toList pieces).map fun (line, piece) => (line, piece.trimmed) := by
  obtain ⟨rows, each, rfl⟩ := cut.exists_rows
  have plain := plain_bodyIndent options model.machine.isSome
  have free : ∀ line ∈ text.toList.splitOn '\n', '\n' ∉ line :=
    fun line => newline_not_mem_of_mem_splitOn
  obtain ⟨laid, later, same⟩ := exists_rows_laidLines plain each free false false
  have cutLaid : List.Forall₂ CutsRow ((layoutAs options model text).toList.splitOn '\n')
      (laid ++ [[]]) := by
    rw [splitOn_layoutAs]
    exact List.rel_append later (.cons (fun number => .done number) .nil)
  have counted := onCodeLines_numbered cutLaid
  refine ⟨numbered 0 laid, ?_, ?_⟩
  · rw [toList_layoutAs]
    exact .of_rows later (newline_not_mem_laidLines plain free) 0
  · rw [numbered_append_empty, List.filter_append] at counted
    rw [counted, onCodeLines_numbered each, ← numbered_map, ← same]
    simp

theorem exists_cuts_layoutAs {text : String} {model : Model} (read : Model.parse text = .ok model)
    (options : LayoutOptions) :
    ∃ pieces laid, Cuts 0 text.toList pieces ∧
      Cuts 0 (layoutAs options model text).toList laid ∧ lexemesOf laid = lexemesOf pieces := by
  obtain ⟨pieces, cut, -⟩ := parse_outline_iff.1 ⟨model, read, rfl⟩
  obtain ⟨laid, cutLaid, same⟩ := cuts_layoutAs cut options model
  refine ⟨pieces, laid, cut, cutLaid, ?_⟩
  have tokens := congrArg lexemesOf same
  rwa [lexemesOf_trimmed, lexemesOf_onCodeLines, lexemesOf_onCodeLines] at tokens

theorem format_of_parse {text : String} {model : Model} (read : Model.parse text = .ok model)
    (options : LayoutOptions) :
    (Formatter.layout .standard).format text options = .ok (layoutAs options model text) := by
  simp [Formatter.layout, Parser.standard, read, Except.map]

theorem format_preserves {text : String} {model : Model} (read : Model.parse text = .ok model)
    (options : LayoutOptions) :
    ∃ laid other, (Formatter.layout .standard).format text options = .ok laid ∧
      Model.parse laid = .ok other ∧ other.outline = model.outline ∧
      ∃ pieces others, Cuts 0 text.toList pieces ∧ Cuts 0 laid.toList others ∧
        onCodeLines laid.toList others =
          (onCodeLines text.toList pieces).map fun (line, piece) => (line, piece.trimmed) := by
  obtain ⟨pieces, cut, program, lexemes, outlined⟩ := parse_outline_iff.1 ⟨model, read, rfl⟩
  obtain ⟨others, cutLaid, same⟩ := cuts_layoutAs cut options model
  have kept : lexemesOf others = lexemesOf pieces := by
    have tokens := congrArg lexemesOf same
    rwa [lexemesOf_trimmed, lexemesOf_onCodeLines, lexemesOf_onCodeLines] at tokens
  obtain ⟨other, readLaid, outlinedLaid⟩ :=
    parse_outline_iff.2 ⟨others, cutLaid, program, kept.trans lexemes, outlined⟩
  have formatted : (Formatter.layout .standard).format text options =
      .ok (layoutAs options model text) := by
    simp [Formatter.layout, Parser.standard, read, Except.map]
  exact ⟨_, other, formatted, readLaid, outlinedLaid, pieces, others, cut, cutLaid, same⟩

theorem format_preserves_comment :
    ∃ model laid other, Model.parse "state A//b \n" = .ok model ∧
      (Formatter.layout .standard).format "state A//b \n" .standard = .ok laid ∧
      Model.parse laid = .ok other ∧ other.outline = model.outline := by
  have spelled : Cuts 0 ('s' :: (['t', 'a', 't', 'e'] ++ ' ' :: ('A' :: ([] ++
        '/' :: '/' :: (['b', ' '] ++ ['\n'])))))
      [(0, .lexeme (.ofWord "state")), (0, .lexeme (.ofWord "A")), (0, .comment ['b', ' '])] :=
    .spelled rfl rfl rfl (.blank (.inl rfl)
      (.spelled rfl rfl rfl (.comment (by decide) (by simp) (.newline (.done 1)))))
  have cut : Cuts 0 "state A//b \n".toList _ := spelled
  obtain ⟨model, read, -⟩ := parse_outline_iff.2
    ⟨_, cut, ⟨none, [.state "A" false]⟩, by decide, rfl⟩
  obtain ⟨laid, other, formatted, again, same, -⟩ := format_preserves read .standard
  exact ⟨model, laid, other, read, formatted, again, same⟩

end FsmWorkbench
