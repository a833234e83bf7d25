import FsmWorkbench.Proofs.Layout.Shaping
import FsmWorkbench.Proofs.Text.Splitting

set_option autoImplicit false

namespace FsmWorkbench

open Text

section Openings

variable {number : Nat} {line : List Char} {pieces : List (Nat × Piece)}

theorem Cuts.exists_comment (cut : Cuts number line pieces) (inside : '\n' ∉ line)
    (none : lexemesOf pieces = []) (shown : isShown line = true) :
    ∃ body, Text.trimStart line = '/' :: '/' :: body := by
  induction cut with
  | done => cases shown
  | newline => simp at inside
  | @blank _ c rest _ blank _ ih =>
    have isBlank : isBlank c = true := isBlank_between blank
    have later : isShown rest = true := by
      by_contra hidden
      rw [Bool.not_eq_true, isShown_eq_false_iff] at hidden
      rw [isShown_eq_false_iff.2 (List.forall_mem_cons.2 ⟨isBlank, hidden⟩)] at shown
      cases shown
    rw [Text.trimStart, List.dropWhile_cons_of_pos isBlank]
    exact ih (by simp_all) none later
  | @comment _ body rest => exact ⟨body ++ rest, trimStart_cons_of_visible (by decide) _⟩
  | word | quoted => cases none

theorem Cuts.exists_keyword (cut : Cuts number line pieces) (inside : '\n' ∉ line)
    {word : Keyword} {more : List Lexeme} (lexemes : lexemesOf pieces = .keyword word :: more) :
    ∃ rest after, Text.trimStart line = word.text.toList ++ rest ∧ '\n' ∉ rest ∧
      (∀ c ∈ rest.head?, isWordPart c = false) ∧ Cuts number rest after ∧
      lexemesOf after = more := by
  induction cut with
  | done => cases lexemes
  | newline => simp at inside
  | @blank _ c rest _ blank _ ih =>
    have isBlank : isBlank c = true := isBlank_between blank
    rw [Text.trimStart, List.dropWhile_cons_of_pos isBlank]
    exact ih (by simp_all) lexemes
  | comment _ ends after =>
    obtain rfl := eq_nil_of_comment ends inside
    cases after
    cases lexemes
  | @word _ first tail rest after starts _ ends cut _ =>
    obtain ⟨named, others⟩ := List.cons.inj lexemes
    have spelled := congrArg String.toList (Lexeme.ofWord_eq_keyword_iff.1 named)
    rw [String.toList_ofList] at spelled
    refine ⟨rest, after, ?_, by simp_all, ends, cut, others⟩
    rw [← spelled, trimStart_cons_of_visible
      (isBlank_eq_false_of_isWordPart (isWordPart_of_isWordStart starts)), List.cons_append]
  | quoted => cases lexemes

-- A word is followed by a blank once it is laid out, unless a string follows it at once.
theorem Cuts.isBlank_of_head?_spaceOut (cut : Cuts number line pieces) (inside : '\n' ∉ line)
    (ends : ∀ c ∈ line.head?, isWordPart c = false)
    (unquoted : ∀ content, (lexemesOf pieces).head? ≠ some (.quoted content)) :
    ∀ c ∈ (spaceOut .code (Text.trimEnd line)).head?, isBlank c = true := by
  have space : isBlank ' ' = true := by decide
  cases cut with
  | done => simp [spaceOut]
  | newline => simp at inside
  | @blank _ first _ _ blank =>
    have isBlank : isBlank first = true := isBlank_between blank
    intro c head
    rcases head?_spaceOut_code _ c head with rfl | head
    · exact space
    · obtain rfl := Option.some.inj (mem_head?_of_trimEnd head)
      exact isBlank
  | comment =>
    rw [trimEnd_comment, spaceOut_comment _ (by simp)]
    simp [space]
  | word starts =>
    have visible := ends _ rfl
    rw [isWordPart_of_isWordStart starts] at visible
    cases visible
  | quoted => exact absurd rfl (unquoted _)

end Openings

section Rows

variable {indent line : List Char} {row : List Piece}

theorem opensMachine_iff :
    opensMachine line = true ↔ (words line).head? = some Keyword.machine.text.toList :=
  beq_iff_eq

theorem CutsRow.mem_of_opensMachine (cut : CutsRow line row) (inside : '\n' ∉ line)
    (opens : opensMachine (spaceOut .opening (Text.trim line)) = true) :
    .keyword .machine ∈ rowLexemes row := by
  obtain ⟨tail, whole, apart⟩ :=
    exists_append_of_head?_words (head?_spaceOut_opening _) (opensMachine_iff.1 opens)
  obtain ⟨first, more, spelled, starts⟩ := Grammar.exists_cons_text .machine
  have part : ∀ c ∈ more, isWordPart c = true :=
    fun c member => Grammar.isWordPart_of_mem_text (spelled ▸ List.mem_cons_of_mem first member)
  have ends : ∀ c ∈ tail.head?, isWordPart c = false := by
    intro c head
    by_contra word
    have visible := isBlank_eq_false_of_isWordPart (Bool.eq_true_of_not_eq_false word)
    rw [apart c head] at visible
    cases visible
  have scanned := ((cut.spaced inside 0).scan 0).2
  rw [lexemesOf_row, rowLexemes_trimmed, whole, spelled, List.cons_append,
    TokenStream.scan_word starts, List.takeWhile_append_of_pos part, takeWhile_eq_nil ends,
    List.append_nil, ← spelled] at scanned
  have named : Lexeme.ofWord Keyword.machine.text = .keyword .machine :=
    Lexeme.ofWord_eq_keyword_iff.2 rfl
  simp only [TokenStream.lexemes_token, String.ofList_toList, named] at scanned
  rw [← scanned]
  exact List.mem_cons_self

theorem CutsRow.exists_keyword (cut : CutsRow line row) (inside : '\n' ∉ line) {word : Keyword}
    {more : List Lexeme} (lexemes : rowLexemes row = .keyword word :: more)
    (unquoted : ∀ content, more.head? ≠ some (.quoted content)) :
    word.text.toList <+: Text.trimStart line ∧
      ∃ tail, spaceOut .opening (Text.trim line) = word.text.toList ++ tail ∧
        ∀ c ∈ tail.head?, isBlank c = true := by
  rw [← lexemesOf_row 0] at lexemes
  obtain ⟨rest, after, started, free, ends, cutRest, rfl⟩ :=
    (cut 0).exists_keyword inside lexemes
  obtain ⟨first, tail, spelled, starts⟩ := Grammar.exists_cons_text word
  have part : ∀ c ∈ tail, isWordPart c = true :=
    fun c member => Grammar.isWordPart_of_mem_text (spelled ▸ List.mem_cons_of_mem first member)
  have kept : Text.trimEnd word.text.toList = word.text.toList :=
    trimEnd_eq_self word.visible_text.2
  refine ⟨started ▸ List.prefix_append .., spaceOut .code (Text.trimEnd rest), ?_,
    cutRest.isBlank_of_head?_spaceOut free ends unquoted⟩
  rw [Text.trim, started, trimEnd_append kept, spelled, List.cons_append,
    spaceOut_cons_word (by simp) starts part]
  rfl

theorem CutsRow.exists_comment (cut : CutsRow line row) (inside : '\n' ∉ line)
    (none : rowLexemes row = []) (shown : isShown line = true) :
    ['/', '/'] <+: Text.trimStart line ∧
      ∃ body, spaceOut .opening (Text.trim line) = '/' :: '/' :: body := by
  rw [← lexemesOf_row 0] at none
  obtain ⟨body, started⟩ := (cut 0).exists_comment inside none shown
  refine ⟨started ▸ List.prefix_append ['/', '/'] body, Text.trimEnd (Text.trimEnd body), ?_⟩
  rw [Text.trim, started, trimEnd_comment, spaceOut_comment _ (by simp), trimEnd_comment]
  rfl

theorem CutsRow.not_opensMachine (cut : CutsRow line row) (inside : '\n' ∉ line)
    (absent : .keyword .machine ∉ rowLexemes row) :
    opensMachine (spaceOut .opening (Text.trim line)) = false :=
  Bool.eq_false_of_not_eq_true (mt (cut.mem_of_opensMachine inside) absent)

theorem laidLine_of_not_opensMachine
    (closed : opensMachine (spaceOut .opening (trim line)) = false) :
    laidLine indent line = indent ++ spaceOut .opening (trim line) := by
  rw [laidLine, closed]
  rfl

theorem head?_words_laidLine (plain : ∀ c ∈ indent, c = ' ' ∨ c = '\t')
    (closed : opensMachine (spaceOut .opening (trim line)) = false) :
    (words (laidLine indent line)).head? ≠ some Keyword.machine.text.toList := by
  have blank : ∀ c ∈ indent, isBlank c = true :=
    fun c member => isBlank_between ((plain c member).imp_right .inl)
  rw [laidLine_of_not_opensMachine closed, words_blank_append blank]
  intro opens
  rw [opensMachine_iff.2 opens] at closed
  cases closed

end Rows

structure DeclaresMachine (above : List (List Char)) (line : List Char) : Prop where
  word : Keyword.machine.text.toList <+: trimStart line
  comments : ∀ other ∈ above, isShown other = true → ['/', '/'] <+: trimStart other

/-- One line opens the machine, and all others that are not empty have the indent before them. -/
structure Indented (indent : List Char) (before : List (List Char)) (line : List Char)
    (after : List (List Char)) : Prop where
  flush : Keyword.machine.text.toList <+: line
  opens : (words line).head? = some Keyword.machine.text.toList
  alone : ∀ row ∈ before ++ after, (words row).head? ≠ some Keyword.machine.text.toList
  above : ∀ row ∈ before, row ≠ [] → ∃ comment, row = indent ++ '/' :: '/' :: comment
  below : ∀ row ∈ after, row ≠ [] → ∃ c rest, row = indent ++ c :: rest ∧ isBlank c = false

structure MachineLine (above : List (List Char)) (line : List Char) (below : List (List Char)) :
    Prop extends DeclaresMachine above line where
  opens : ∃ tail, spaceOut .opening (trim line) = Keyword.machine.text.toList ++ tail ∧
    ∀ c ∈ tail.head?, isBlank c = true
  slashes : ∀ other ∈ above, isShown other = true →
    ∃ comment, spaceOut .opening (trim other) = '/' :: '/' :: comment
  closed : ∀ other ∈ above ++ below, opensMachine (spaceOut .opening (trim other)) = false

namespace MachineLine

variable {above below : List (List Char)} {line : List Char}

theorem shown (machine : MachineLine above line below) : isShown line = true := by
  have held : 'm' ∈ trimStart line := machine.word.subset (by decide)
  exact isShown_of_mem ((List.dropWhile_sublist _).subset held) (by decide)

theorem exists_laidLine (machine : MachineLine above line below) (indent : List Char) :
    ∃ tail, laidLine indent line = Keyword.machine.text.toList ++ tail ∧
      (words (laidLine indent line)).head? = some Keyword.machine.text.toList := by
  obtain ⟨tail, whole, apart⟩ := machine.opens
  have visible := Keyword.machine.visible_text
  have first : (words (Keyword.machine.text.toList ++ tail)).head? = _ :=
    head?_words_append visible.1 visible.2 apart
  have laid : laidLine indent line = Keyword.machine.text.toList ++ tail := by
    rw [laidLine, whole, opensMachine_iff.2 first]
    rfl
  exact ⟨tail, laid, laid ▸ first⟩

variable {indent : List Char}

theorem laidLine_eq (machine : MachineLine above line below) {other : List Char}
    (member : other ∈ above ++ below) :
    laidLine indent other = indent ++ spaceOut .opening (trim other) :=
  laidLine_of_not_opensMachine (machine.closed other member)

theorem exists_indented (machine : MachineLine above line below)
    (plain : ∀ c ∈ indent, c = ' ' ∨ c = '\t') :
    ∃ before laid after,
      laidLines indent false false (above ++ line :: below) = before ++ laid :: after ∧
        Indented indent before laid after ∧
        ((∀ row ∈ before, row = []) ↔ ∀ other ∈ above, isShown other = false) := by
  obtain ⟨tail, laid, first⟩ := machine.exists_laidLine indent
  obtain ⟨top, whole, -, before⟩ :=
    @exists_top_laidLines indent false false line machine.shown above below
  refine ⟨top, _, _, whole, ⟨laid ▸ List.prefix_append .., first, ?_, ?_, ?_⟩, ?_, ?_⟩
  · intro row member
    by_cases some : row = []
    · rw [some]
      nofun
    · have held : ∃ other ∈ above ++ below, row = laidLine indent other := by
        rcases List.mem_append.1 member with above | below
        · obtain ⟨other, within, -, same⟩ := (before row some).1 above
          exact ⟨other, List.mem_append_left _ within, same⟩
        · obtain ⟨other, within, -, same⟩ := (mem_laidLines_iff some).1 below
          exact ⟨other, List.mem_append_right _ within, same⟩
      obtain ⟨other, within, rfl⟩ := held
      exact head?_words_laidLine plain (machine.closed other within)
  · intro row member some
    obtain ⟨other, within, visible, rfl⟩ := (before row some).1 member
    obtain ⟨comment, spaced⟩ := machine.slashes other within visible
    exact ⟨comment, by rw [machine.laidLine_eq (List.mem_append_left _ within), spaced]⟩
  · intro row member some
    obtain ⟨other, within, visible, rfl⟩ := (mem_laidLines_iff some).1 member
    obtain ⟨c, rest, spaced, seen⟩ := exists_cons_of_isShown visible
    exact ⟨c, rest, by rw [machine.laidLine_eq (List.mem_append_right _ within), spaced], seen⟩
  · intro empty other within
    by_contra hidden
    have visible : isShown other = true := Bool.eq_true_of_not_eq_false hidden
    have some : laidLine indent other ≠ [] := laidLine_ne_nil visible
    exact some (empty _ ((before _ some).2 ⟨other, within, visible, rfl⟩))
  · intro hidden row member
    by_contra some
    obtain ⟨other, within, visible, -⟩ := (before row some).1 member
    rw [hidden other within] at visible
    cases visible

end MachineLine

theorem Indented.unindented_iff {indent line : List Char} {before after : List (List Char)}
    (indented : Indented indent before line after) (plain : ∀ c ∈ indent, c = ' ' ∨ c = '\t') :
    (∀ row ∈ before, ∀ c ∈ row.head?, isBlank c = false) ↔
      indent = [] ∨ ∀ row ∈ before, row = [] := by
  constructor
  · intro visible
    by_contra! both
    obtain ⟨wide, row, member, some⟩ := both
    obtain ⟨comment, rfl⟩ := indented.above row member some
    obtain ⟨c, rest, rfl⟩ := List.exists_cons_of_ne_nil wide
    have seen : isBlank c = false := visible _ member c rfl
    rw [isBlank_between ((plain c List.mem_cons_self).imp_right .inl)] at seen
    cases seen
  · rintro (rfl | empty) row member c head
    · have some : row ≠ [] := List.ne_nil_of_mem (List.mem_of_mem_head? head)
      obtain ⟨comment, rfl⟩ := indented.above row member some
      obtain rfl := Option.some.inj head
      decide
    · rw [empty row member] at head
      cases head

section Documents

variable {text : String} {model : Model}

theorem exists_line_of_machine (read : Model.parse text = .ok model)
    (declared : model.machine.isSome = true) :
    ∃ above line below, text.toList.splitOn '\n' = above ++ line :: below ∧
      (∀ other ∈ above, ∃ row, CutsRow other row ∧ rowLexemes row = []) ∧
      (∃ row front, CutsRow line row ∧ rowLexemes row = .keyword .machine :: front ∧
        ∀ content, front.head? ≠ some (.quoted content)) ∧
      ∀ other ∈ below, ∃ row, CutsRow other row ∧ .keyword .machine ∉ rowLexemes row := by
  obtain ⟨pieces, cut, ⟨machine, items⟩, lexemes, outlined⟩ :=
    parse_outline_iff.1 ⟨model, read, rfl⟩
  obtain ⟨rows, each, rfl⟩ := cut.exists_rows
  have named : machine.isSome = true := by
    have same : machine = model.machine.map fun machine => machine.name.text :=
      congrArg Outline.machine outlined
    rwa [same, Option.isSome_map]
  obtain ⟨name, rfl⟩ := Option.isSome_iff_exists.1 named
  rw [lexemesOf_numbered] at lexemes
  obtain ⟨above, line, below, split, before, ⟨row, front, cutLine, opens, started⟩, after⟩ :=
    exists_line_of_lexemes each lexemes
  refine ⟨above, line, below, split, before, ⟨row, front, cutLine, opens, ?_⟩, ?_⟩
  · intro content head
    cases front with
    | nil => cases head
    | cons first front =>
      obtain rfl := Option.some.inj head
      cases (List.cons_prefix_cons.1 started).1
  · intro other member
    obtain ⟨found, cutOther, within⟩ := after other member
    refine ⟨found, cutOther, fun held => ?_⟩
    rcases List.mem_cons.1 (within held) with name | item
    · cases name
    · exact Program.machine_not_mem_lexemes items item

theorem exists_machineLine (read : Model.parse text = .ok model)
    (declared : model.machine.isSome = true) :
    ∃ above line below, text.toList.splitOn '\n' = above ++ line :: below ∧
      MachineLine above line below := by
  obtain ⟨above, line, below, split, comments, ⟨row, front, cut, opens, unquoted⟩, body⟩ :=
    exists_line_of_machine read declared
  have free : ∀ other ∈ above ++ line :: below, '\n' ∉ other :=
    split ▸ fun other => newline_not_mem_of_mem_splitOn
  have freeAbove : ∀ other ∈ above, '\n' ∉ other :=
    fun other member => free other (List.mem_append_left _ member)
  have freeBelow : ∀ other ∈ below, '\n' ∉ other :=
    fun other member => free other (List.mem_append_right _ (List.mem_cons_of_mem _ member))
  obtain ⟨starts, spaced⟩ := cut.exists_keyword (free line (by simp)) opens unquoted
  refine ⟨above, line, below, split, ⟨⟨starts, ?_⟩, spaced, ?_, ?_⟩⟩
  · intro other member shown
    obtain ⟨found, cutOther, none⟩ := comments other member
    exact (cutOther.exists_comment (freeAbove other member) none shown).1
  · intro other member shown
    obtain ⟨found, cutOther, none⟩ := comments other member
    exact (cutOther.exists_comment (freeAbove other member) none shown).2
  · intro other member
    rcases List.mem_append.1 member with within | within
    · obtain ⟨found, cutOther, none⟩ := comments other within
      exact cutOther.not_opensMachine (freeAbove other within) (by simp [none])
    · obtain ⟨found, cutOther, absent⟩ := body other within
      exact cutOther.not_opensMachine (freeBelow other within) absent

theorem indenting_iff (read : Model.parse text = .ok model)
    (declared : model.machine.isSome = true) {options : LayoutOptions}
    (body : options.indentBody = true) :
    ∃ laid before line after above source below,
      (Formatter.layout .standard).format text options = .ok laid ∧
        laid.toList = (before ++ line :: after).flatMap (· ++ ['\n']) ∧
        (∀ row ∈ before ++ line :: after, '\n' ∉ row) ∧
        Indented options.indent before line after ∧
        text.toList.splitOn '\n' = above ++ source :: below ∧ DeclaresMachine above source ∧
        ((∀ row ∈ before, ∀ c ∈ row.head?, isBlank c = false) ↔
          options.indent = [] ∨ ∀ other ∈ above, isShown other = false) := by
  have plain : ∀ c ∈ options.indent, c = ' ' ∨ c = '\t' := plain_indent options
  have level : bodyIndent options model.machine.isSome = options.indent := by
    rw [bodyIndent, body, declared]
    rfl
  obtain ⟨above, source, below, split, machine⟩ := exists_machineLine read declared
  obtain ⟨before, line, after, same, indented, headers⟩ := machine.exists_indented plain
  have whole := toList_layoutAs options model text
  rw [level, split, same] at whole
  refine ⟨_, before, line, after, above, source, below, format_of_parse read options, whole, ?_,
    indented, split, machine.toDeclaresMachine, ?_⟩
  · rw [← same, ← split]
    exact newline_not_mem_laidLines plain fun other => newline_not_mem_of_mem_splitOn
  · rw [indented.unindented_iff plain, headers]

theorem indenting_iff_below_comment :
    ∃ (model : Model) (before : List (List Char)) (line : List Char) (after : List (List Char)),
      Model.parse "// a\n\n machine\tm//b\nstate A" = .ok model ∧ model.machine.isSome = true ∧
        (before ++ line :: after).flatMap (· ++ ['\n']) =
          "\t// a\n\nmachine m //b\n\tstate A\n".toList ∧
        Indented ['\t'] before line after := by
  have parsed : Model.parse "// a\n\n machine\tm//b\nstate A" =
      .ok ⟨some ⟨⟨"m", ⟨15, 16⟩⟩, ⟨7, 16⟩⟩, [⟨⟨"A", ⟨26, 27⟩⟩, false, ⟨20, 27⟩⟩], []⟩ := by cbv
  obtain ⟨laid, before, line, after, -, -, -, formatted, whole, -, indented, -⟩ :=
    @indenting_iff _ _ parsed rfl ⟨0, true, true⟩ rfl
  refine ⟨_, before, line, after, parsed, rfl, ?_, indented⟩
  rw [format_of_parse parsed] at formatted
  rw [← whole, ← Except.ok.inj formatted]
  decide +kernel

theorem format_header :
    ∃ model, Model.parse "// header\nmachine M\nstate A" = .ok model ∧
      model.machine.isSome = true ∧ LayoutOptions.standard.indentBody = true ∧
      (Formatter.layout .standard).format "// header\nmachine M\nstate A" .standard =
        .ok "    // header\nmachine M\n    state A\n" := by
  have parsed : Model.parse "// header\nmachine M\nstate A" =
      .ok ⟨some ⟨⟨"M", ⟨18, 19⟩⟩, ⟨10, 19⟩⟩, [⟨⟨"A", ⟨26, 27⟩⟩, false, ⟨20, 27⟩⟩], []⟩ := by cbv
  refine ⟨_, parsed, rfl, rfl, ?_⟩
  rw [format_of_parse parsed]
  decide +kernel

end Documents

end FsmWorkbench
