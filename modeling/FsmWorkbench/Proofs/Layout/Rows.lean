import FsmWorkbench.Proofs.Notation.Cutting
import FsmWorkbench.Proofs.Text.Trimming
import Mathlib.Data.List.Forall2

set_option autoImplicit false

namespace FsmWorkbench

open Text

def CutsRow (line : List Char) (row : List Piece) : Prop :=
  ∀ number, Cuts number line (row.map fun piece => (number, piece))

def numbered (number : Nat) : List (List Piece) → List (Nat × Piece)
  | [] => []
  | row :: rows => row.map (fun piece => (number, piece)) ++ numbered (number + 1) rows

@[simp] theorem numbered_append_empty (number : Nat) (rows : List (List Piece)) :
    numbered number (rows ++ [[]]) = numbered number rows := by
  induction rows generalizing number with
  | nil => rfl
  | cons row rows ih => rw [List.cons_append, numbered, numbered, ih]

def rowLexemes (row : List Piece) : List Lexeme :=
  row.filterMap Piece.lexeme?

theorem lexemesOf_row (number : Nat) (row : List Piece) :
    lexemesOf (row.map fun piece => (number, piece)) = rowLexemes row := by
  rw [lexemesOf, List.filterMap_map]
  rfl

theorem lexemesOf_append (front rest : List (Nat × Piece)) :
    lexemesOf (front ++ rest) = lexemesOf front ++ lexemesOf rest :=
  List.filterMap_append

theorem lexemesOf_numbered (number : Nat) (rows : List (List Piece)) :
    lexemesOf (numbered number rows) = rows.flatMap rowLexemes := by
  induction rows generalizing number with
  | nil => rfl
  | cons row rows ih =>
    rw [numbered, lexemesOf_append, lexemesOf_row, ih, List.flatMap_cons]

theorem splitOn_append {front rest : List Char} (inside : '\n' ∉ front) :
    (front ++ rest).splitOn '\n' = (rest.splitOn '\n').modifyHead (front ++ ·) := by
  induction front with
  | nil =>
    rw [List.nil_append]
    cases rest.splitOn '\n' <;> rfl
  | cons c front ih =>
    rw [List.mem_cons, not_or] at inside
    rw [List.cons_append, List.splitOn_cons_eq_if_modifyHead, ih inside.2,
      if_neg (by simpa using Ne.symm inside.1)]
    cases rest.splitOn '\n' <;> rfl

theorem head?_of_splitOn {cs line : List Char} {more : List (List Char)}
    (split : cs.splitOn '\n' = line :: more) : ∀ c ∈ line.head?, c ∈ cs.head? := by
  intro c head
  cases cs with
  | nil =>
    obtain ⟨rfl, -⟩ := List.cons.inj split
    cases head
  | cons d rest =>
    rw [List.splitOn_cons_eq_if_modifyHead] at split
    split at split
    · obtain ⟨rfl, -⟩ := List.cons.inj split
      cases head
    · cases others : rest.splitOn '\n' with
      | nil => exact absurd others (List.splitOn_ne_nil _ _)
      | cons first lines =>
        rw [others] at split
        obtain ⟨rfl, -⟩ := List.cons.inj split
        exact head

-- What is put before a text without a line end goes into its first line.
theorem exists_rows_append {front rest : List Char} {rows : List (List Piece)} (new : List Piece)
    (inside : '\n' ∉ front) (cut : List.Forall₂ CutsRow (rest.splitOn '\n') rows)
    (grows : ∀ line row, (∀ c ∈ line.head?, c ∈ rest.head?) → CutsRow line row →
      CutsRow (front ++ line) (new ++ row)) (number : Nat) :
    ∃ others, List.Forall₂ CutsRow ((front ++ rest).splitOn '\n') others ∧
      numbered number others = new.map (fun piece => (number, piece)) ++ numbered number rows := by
  rw [splitOn_append inside]
  generalize split : rest.splitOn '\n' = lines at cut
  cases cut with
  | nil => exact absurd split (List.splitOn_ne_nil _ _)
  | @cons line row more rows first later =>
    refine ⟨(new ++ row) :: rows, ?_, ?_⟩
    · exact .cons (grows line row (head?_of_splitOn split) first) later
    · simp [numbered]

theorem Cuts.exists_rows {number : Nat} {cs : List Char} {pieces : List (Nat × Piece)}
    (cut : Cuts number cs pieces) :
    ∃ rows, List.Forall₂ CutsRow (cs.splitOn '\n') rows ∧ pieces = numbered number rows := by
  induction cut with
  | done number => exact ⟨[[]], .cons (fun number => .done number) .nil, rfl⟩
  | @newline number rest pieces _ ih =>
    obtain ⟨rows, each, rfl⟩ := ih
    refine ⟨[] :: rows, ?_, rfl⟩
    rw [List.splitOn_cons_eq_if_modifyHead, if_pos (by decide)]
    exact .cons (fun number => .done number) each
  | @blank number c rest pieces blank _ ih =>
    obtain ⟨rows, each, rfl⟩ := ih
    have inside : '\n' ∉ [c] := by
      rcases blank with rfl | rfl | rfl <;> decide
    obtain ⟨others, cut, same⟩ := exists_rows_append [] inside each
      (fun line row _ cut number => .blank blank (cut number)) number
    exact ⟨others, cut, same.symm⟩
  | @comment number body rest pieces inside ends _ ih =>
    obtain ⟨rows, each, rfl⟩ := ih
    have free : '\n' ∉ '/' :: '/' :: body := by
      simpa using inside
    obtain ⟨others, cut, same⟩ := exists_rows_append [.comment body] free each
      (fun line row head cut number =>
        .comment inside (fun c member => ends c (head c member)) (cut number)) number
    exact ⟨others, cut, same.symm⟩
  | @word number first more rest pieces starts inside ends _ ih =>
    obtain ⟨rows, each, rfl⟩ := ih
    have free : '\n' ∉ first :: more := by
      intro feed
      rcases List.mem_cons.1 feed with rfl | member
      · exact absurd starts (by decide)
      · exact absurd (inside _ member) (by decide)
    let word := Piece.lexeme (.ofWord (String.ofList (first :: more)))
    obtain ⟨others, cut, same⟩ := exists_rows_append [word] free each
      (fun line row head cut number =>
        .word starts inside (fun c member => ends c (head c member)) (cut number)) number
    exact ⟨others, cut, same.symm⟩
  | @quoted number content rest pieces unquoted inside _ ih =>
    obtain ⟨rows, each, rfl⟩ := ih
    have free : '\n' ∉ '"' :: (content ++ ['"']) := by
      simpa using inside
    obtain ⟨others, cut, same⟩ := exists_rows_append [.lexeme (.quoted (String.ofList content))]
      free each (fun line row _ cut number => by
        simpa using Cuts.quoted unquoted inside (cut number)) number
    refine ⟨others, ?_, same.symm⟩
    simpa using cut

theorem exists_cutsRow_of_mem {lines : List (List Char)} {rows : List (List Piece)}
    (cut : List.Forall₂ CutsRow lines rows) : ∀ line ∈ lines, ∃ row ∈ rows, CutsRow line row := by
  induction cut with
  | nil => exact List.forall_mem_nil _
  | @cons line row lines rows first _ ih =>
    refine List.forall_mem_cons.2 ⟨⟨row, List.mem_cons_self, first⟩, fun other member => ?_⟩
    obtain ⟨found, within, cuts⟩ := ih other member
    exact ⟨found, List.mem_cons_of_mem row within, cuts⟩

theorem exists_line_of_lexemes {lines : List (List Char)} {rows : List (List Piece)}
    (cut : List.Forall₂ CutsRow lines rows) {first : Lexeme} {more : List Lexeme}
    (lexemes : rows.flatMap rowLexemes = first :: more) :
    ∃ above line below, lines = above ++ line :: below ∧
      (∀ other ∈ above, ∃ row, CutsRow other row ∧ rowLexemes row = []) ∧
      (∃ row front, CutsRow line row ∧ rowLexemes row = first :: front ∧ front <+: more) ∧
      ∀ other ∈ below, ∃ row, CutsRow other row ∧ rowLexemes row ⊆ more := by
  induction cut with
  | nil => cases lexemes
  | @cons line row lines rows head tail ih =>
    rw [List.flatMap_cons] at lexemes
    cases own : rowLexemes row with
    | nil =>
      rw [own] at lexemes
      obtain ⟨above, found, below, split, before, opens, after⟩ := ih lexemes
      refine ⟨line :: above, found, below, congrArg _ split, ?_, opens, after⟩
      exact List.forall_mem_cons.2 ⟨⟨row, head, own⟩, before⟩
    | cons lexeme front =>
      rw [own] at lexemes
      obtain ⟨rfl, rest⟩ := List.cons.inj lexemes
      refine ⟨[], line, lines, rfl, List.forall_mem_nil _, ?_, ?_⟩
      · exact ⟨row, front, head, own, rest ▸ List.prefix_append _ _⟩
      · intro other member
        obtain ⟨found, within, cuts⟩ := exists_cutsRow_of_mem tail other member
        refine ⟨found, cuts, fun lexeme held => ?_⟩
        rw [← rest]
        exact List.mem_append_right front (List.mem_flatMap.2 ⟨found, within, held⟩)

theorem Cuts.append_newline {number : Nat} {line rest : List Char}
    {pieces more : List (Nat × Piece)} (cut : Cuts number line pieces) (inside : '\n' ∉ line)
    (after : Cuts (number + 1) rest more) :
    Cuts number (line ++ '\n' :: rest) (pieces ++ more) := by
  induction cut with
  | done => exact .newline after
  | newline => simp at inside
  | blank blank _ ih => exact .blank blank (ih (by simp_all) after)
  | @comment _ body tail _ free ends _ ih =>
    have later := ih (by simp_all) after
    rw [List.cons_append, List.cons_append, List.append_assoc]
    refine .comment free ?_ later
    rintro c head
    cases tail with
    | nil => exact (Option.some.inj head).symm
    | cons d tail => exact ends c head
  | @word _ first more tail _ starts part ends _ ih =>
    have later := ih (by simp_all) after
    rw [List.cons_append, List.append_assoc]
    refine .word starts part ?_ later
    rintro c head
    cases tail with
    | nil =>
      obtain rfl := Option.some.inj head
      decide
    | cons d tail => exact ends c head
  | @quoted _ content tail _ unquoted free _ ih =>
    have later := ih (by simp_all) after
    rw [List.cons_append, List.append_assoc]
    exact .quoted unquoted free later

theorem Cuts.of_rows {lines : List (List Char)} {rows : List (List Piece)}
    (cut : List.Forall₂ CutsRow lines rows) (free : ∀ line ∈ lines, '\n' ∉ line) (number : Nat) :
    Cuts number (lines.flatMap (· ++ ['\n'])) (numbered number rows) := by
  induction cut generalizing number with
  | nil => exact .done number
  | @cons line row lines rows first _ ih =>
    rw [List.forall_mem_cons] at free
    rw [List.flatMap_cons, List.append_assoc]
    exact (first number).append_newline free.1 (ih free.2 (number + 1))

theorem splitOn_flatMap {lines : List (List Char)} (free : ∀ line ∈ lines, '\n' ∉ line) :
    (lines.flatMap (· ++ ['\n'])).splitOn '\n' = lines ++ [[]] := by
  induction lines with
  | nil => rfl
  | cons line lines ih =>
    rw [List.forall_mem_cons] at free
    rw [List.flatMap_cons, List.append_assoc, List.singleton_append,
      List.splitOn_append_cons_self_of_not_mem free.1, ih free.2, List.cons_append]

theorem isBlank_between {c : Char} (between : c = ' ' ∨ c = '\t' ∨ c = '\r') :
    isBlank c = true := by
  rcases between with rfl | rfl | rfl <;> decide

theorem Cuts.isBlank_of_nil {number : Nat} {cs : List Char} (cut : Cuts number cs []) :
    ∀ c ∈ cs, isBlank c = true := by
  generalize none : [] = pieces at cut
  induction cut with
  | done => simp
  | newline _ ih =>
    rw [List.forall_mem_cons]
    exact ⟨by decide, ih none⟩
  | blank blank _ ih =>
    rw [List.forall_mem_cons]
    exact ⟨isBlank_between blank, ih none⟩
  | comment | word | quoted => cases none

theorem Cuts.eq_nil_of_isBlank {number : Nat} {cs : List Char} {pieces : List (Nat × Piece)}
    (cut : Cuts number cs pieces) (blank : ∀ c ∈ cs, isBlank c = true) : pieces = [] := by
  induction cut with
  | done => rfl
  | newline _ ih | blank _ _ ih => exact ih fun c member => blank c (List.mem_cons_of_mem _ member)
  | comment | quoted => exact absurd (blank _ List.mem_cons_self) (by decide)
  | word starts =>
    have visible := isBlank_eq_false_of_isWordPart (isWordPart_of_isWordStart starts)
    simp [blank _ List.mem_cons_self] at visible

theorem CutsRow.isEmpty_trim {line : List Char} {row : List Piece} (cut : CutsRow line row) :
    (trim line).isEmpty = row.isEmpty := by
  rw [Bool.eq_iff_iff, List.isEmpty_iff, List.isEmpty_iff, trim_eq_nil_iff]
  constructor
  · intro blank
    simpa using (cut 0).eq_nil_of_isBlank blank
  · rintro rfl
    exact (cut 0).isBlank_of_nil

def codeLine (text : List Char) (line : Nat) : Nat :=
  ((lines text).take line).countP fun before => !(trim before).isEmpty

def onCodeLines (text : List Char) (pieces : List (Nat × Piece)) : List (Nat × Piece) :=
  pieces.map fun (line, piece) => (codeLine text line, piece)

theorem codeLine_eq (text : List Char) (line : Nat) :
    codeLine text line =
      ((text.splitOn '\n').take line).countP fun before => !(trim before).isEmpty := by
  have visible : (fun before => !(trim before).isEmpty) =
      (fun before => !(trimStart before).isEmpty) ∘ trimEnd := by
    funext before
    rw [Function.comp_apply, trimStart_trimEnd]
  obtain ⟨count, same⟩ := exists_map_trimEnd_splitOn text
  rw [codeLine, visible, ← List.countP_map, ← List.countP_map, List.map_take, List.map_take, same,
    List.take_append, List.countP_append, List.take_replicate, List.countP_replicate]
  rfl

theorem countP_take_of_forall₂ {lines : List (List Char)} {rows : List (List Piece)}
    (cut : List.Forall₂ CutsRow lines rows) (line : Nat) :
    ((lines.take line).countP fun before => !(trim before).isEmpty) =
      (rows.take line).countP fun row => !row.isEmpty := by
  induction cut generalizing line with
  | nil => simp
  | cons first _ ih =>
    cases line with
    | zero => rfl
    | succ line =>
      rw [List.take_succ_cons, List.take_succ_cons, List.countP_cons, List.countP_cons, ih,
        first.isEmpty_trim]

theorem map_numbered (before after : List (List Piece)) :
    ((numbered before.length after).map fun (line, piece) =>
        (((before ++ after).take line).countP fun row => !row.isEmpty, piece)) =
      numbered (before.countP fun row => !row.isEmpty) (after.filter fun row => !row.isEmpty) := by
  induction after generalizing before with
  | nil => rfl
  | cons row after ih =>
    have later := ih (before ++ [row])
    rw [List.append_assoc, List.singleton_append, List.length_append, List.length_singleton,
      List.countP_append] at later
    rw [numbered, List.map_append, later]
    cases row with
    | nil => simp
    | cons piece row => simp [numbered]

theorem onCodeLines_numbered {text : List Char} {rows : List (List Piece)}
    (cut : List.Forall₂ CutsRow (text.splitOn '\n') rows) :
    onCodeLines text (numbered 0 rows) = numbered 0 (rows.filter fun row => !row.isEmpty) := by
  have counted := map_numbered [] rows
  simp only [List.nil_append, List.length_nil, List.countP_nil] at counted
  rw [← counted, onCodeLines]
  congr! 2 with entry
  dsimp only
  rw [codeLine_eq, countP_take_of_forall₂ cut]

end FsmWorkbench
