import FsmWorkbench.Proofs.Notation.Descent
import FsmWorkbench.Proofs.Notation.Standing
import Mathlib.Data.List.Nodup

set_option autoImplicit false

namespace FsmWorkbench

open Text

inductive Skips : List Char → List Char → Prop where
  | done (rest : List Char) : Skips rest rest
  | separator {c : Char} {cs rest : List Char} (separates : isSeparator c = true)
      (after : Skips cs rest) : Skips (c :: cs) rest
  | comment {body cs rest : List Char} (inside : '\n' ∉ body) (ends : ∀ c ∈ cs.head?, c = '\n')
      (after : Skips cs rest) : Skips ('/' :: '/' :: (body ++ cs)) rest

theorem Skips.trans {cs between rest : List Char} (first : Skips cs between)
    (second : Skips between rest) : Skips cs rest := by
  induction first with
  | done => exact second
  | separator separates _ ih => exact .separator separates (ih second)
  | comment inside ends _ ih => exact .comment inside ends (ih second)

def Keyword.Opens (word : Keyword) (part rest : List Char) : Prop :=
  ∃ more, part = word.text.toList ++ more ∧ ∀ c ∈ (more ++ rest).head?, isWordPart c = false

theorem Keyword.Opens.extend {word : Keyword} {part between rest : List Char}
    (opens : word.Opens part (between ++ rest)) : word.Opens (part ++ between) rest := by
  obtain ⟨more, rfl, ends⟩ := opens
  refine ⟨more ++ between, List.append_assoc .., ?_⟩
  rwa [List.append_assoc]

theorem Keyword.Opens.size_pos {word : Keyword} {part rest : List Char}
    (opens : word.Opens part rest) : 0 < size part := by
  obtain ⟨more, rfl, -⟩ := opens
  have positive : 0 < size word.text.toList := by cases word <;> decide
  rw [size_append]
  omega

namespace TokenStream

-- The tokens stand in the rest of a text, which starts at the given offset, and between them only
-- what is skipped.
inductive Stands : Nat → List Char → TokenStream → Prop where
  | finished {offset : Nat} {cs : List Char} (skips : Skips cs []) :
      Stands offset cs (.finished (offset + size cs))
  | token {offset : Nat} {gap spelling rest : List Char} {lexeme : Lexeme} {stream : TokenStream}
      (skips : Skips (gap ++ (spelling ++ rest)) (spelling ++ rest))
      (opens : ∀ word, lexeme = .keyword word → word.Opens spelling rest)
      (after : Stands (offset + size gap + size spelling) rest stream) :
      Stands offset (gap ++ (spelling ++ rest))
        (.token ⟨lexeme, ⟨offset + size gap, offset + size gap + size spelling⟩⟩ stream)

theorem Stands.skip {offset : Nat} {gap cs : List Char} {stream : TokenStream}
    (stands : stream.Stands (offset + size gap) cs) (skips : Skips (gap ++ cs) cs) :
    stream.Stands offset (gap ++ cs) := by
  cases stands with
  | finished blank =>
    rw [Nat.add_assoc, ← size_append]
    exact .finished (skips.trans blank)
  | @token _ between spelling rest _ _ blank opens after =>
    rw [Nat.add_assoc offset, ← size_append] at after ⊢
    rw [← List.append_assoc] at skips ⊢
    exact .token (skips.trans blank) opens after

theorem Stands.here {offset : Nat} {spelling rest : List Char} {lexeme : Lexeme}
    {stream : TokenStream} (opens : ∀ word, lexeme = .keyword word → word.Opens spelling rest)
    (after : stream.Stands (offset + size spelling) rest) :
    Stands offset (spelling ++ rest)
      (TokenStream.token ⟨lexeme, ⟨offset, offset + size spelling⟩⟩ stream) :=
  @Stands.token offset [] spelling rest lexeme stream (.done _) opens after

theorem opens_ofWord {spelling rest : List Char} {word : Keyword}
    (same : Lexeme.ofWord (String.ofList spelling) = .keyword word)
    (ends : ∀ c ∈ rest.head?, isWordPart c = false) : word.Opens spelling rest := by
  refine ⟨[], ?_, ends⟩
  rw [← Lexeme.ofWord_eq_keyword_iff.1 same, List.append_nil, String.toList_ofList]

theorem stands_scan {offset : Nat} {cs : List Char} (complete : (scan offset cs).complete = true) :
    (scan offset cs).Stands offset cs := by
  fun_induction scan offset cs with
  | case1 offset => exact .finished (.done [])
  | case2 offset c rest separator ih =>
    have skips : Skips ([c] ++ rest) rest := .separator separator (.done rest)
    exact (ih complete).skip skips
  | case3 offset c rest _ slashes ih =>
    obtain ⟨rfl, second⟩ := slashes
    obtain ⟨more, rfl⟩ := List.head?_eq_some_iff.1 second
    have skips : Skips ('/' :: ('/' :: more).takeWhile isCommentPart ++
        ('/' :: more).dropWhile isCommentPart) (('/' :: more).dropWhile isCommentPart) := by
      rw [List.takeWhile_cons_of_pos (by decide), List.dropWhile_cons_of_pos (by decide)]
      refine .comment (fun feed => ?_) (fun c head => ?_) (.done _)
      · exact absurd (eq_true_of_mem_takeWhile feed) (by decide)
      · simpa [isCommentPart] using eq_false_of_mem_head?_dropWhile head
    have stands := (ih complete).skip skips
    rwa [List.cons_append, List.takeWhile_append_dropWhile] at stands
  | case4 offset c rest _ _ starts word ih =>
    have whole : c :: rest = word ++ rest.dropWhile isWordPart := by
      simp [word, List.takeWhile_append_dropWhile]
    rw [whole]
    refine .here (fun keyword same => ?_) (ih complete)
    exact opens_ofWord same fun d head => eq_false_of_mem_head?_dropWhile head
  | case5 offset rest content after closed _ _ _ next ih =>
    have sized : next = offset + size ('"' :: content ++ ['"']) := by
      rw [← size_quoted, ← Nat.add_assoc]
    have stands := ih complete
    rw [quoted_eq_append closed]
    rw [sized] at stands ⊢
    exact .here (fun _ same => by cases same) stands
  | case6 | case7 => cases complete

end TokenStream

def Span.Covers (outer inner : Span) : Prop :=
  outer.start ≤ inner.start ∧ inner.stop ≤ outer.stop

namespace Declaration

def span : Declaration → Span
  | .machine decl => decl.span
  | .state decl => decl.span
  | .transition decl => decl.span

def keyword : Declaration → Keyword
  | .machine _ => .machine
  | .state _ => .state
  | .transition _ => .transition

/-- A declaration that makes up the given part of a text, from its keyword on and around its
names. -/
structure Fills (decl : Declaration) (offset : Nat) (part rest : List Char) : Prop where
  span : decl.span = ⟨offset, offset + size part⟩
  opens : decl.keyword.Opens part rest
  inside : ∀ name ∈ decl.names, decl.span.Covers name.span

theorem Fills.start_lt_stop {decl : Declaration} {offset : Nat} {part rest : List Char}
    (fills : decl.Fills offset part rest) : decl.span.start < decl.span.stop := by
  rw [fills.span]
  exact Nat.lt_add_of_pos_right fills.opens.size_pos

def EndsBy (a b : Declaration) : Prop :=
  a.span.stop ≤ b.span.start

def le (a b : Declaration) : Bool :=
  a.span.start ≤ b.span.start

end Declaration

/-- The rest of a text, which starts at the given offset, is made up of declarations, and of nothing
but separators and comments before, between and behind them. -/
inductive Tiled : Nat → List Char → List Declaration → Prop where
  | done {offset : Nat} {cs : List Char} (skips : Skips cs []) : Tiled offset cs []
  | declaration {offset : Nat} {gap part rest : List Char} {decl : Declaration}
      {decls : List Declaration} (skips : Skips (gap ++ (part ++ rest)) (part ++ rest))
      (fills : decl.Fills (offset + size gap) part rest)
      (after : Tiled (offset + size gap + size part) rest decls) :
      Tiled offset (gap ++ (part ++ rest)) (decl :: decls)

namespace Tiled

variable {offset : Nat} {cs gap : List Char} {decls : List Declaration}

theorem skip (tiled : Tiled (offset + size gap) cs decls) (skips : Skips (gap ++ cs) cs) :
    Tiled offset (gap ++ cs) decls := by
  cases tiled with
  | done blank => exact .done (skips.trans blank)
  | @declaration _ between part rest _ _ blank fills after =>
    rw [Nat.add_assoc offset, ← size_append] at fills after
    rw [← List.append_assoc] at skips ⊢
    exact .declaration (skips.trans blank) fills after

theorem next {decl : Declaration} {part rest : List Char} (fills : decl.Fills offset part rest)
    (after : Tiled (offset + size part) rest decls) : Tiled offset (part ++ rest) (decl :: decls) :=
  @Tiled.declaration offset [] part rest decl decls (.done _) fills after

theorem stands (tiled : Tiled offset cs decls) {decl : Declaration} (member : decl ∈ decls) :
    ∃ front part rest, cs = front ++ (part ++ rest) ∧
      decl.Fills (offset + size front) part rest := by
  induction tiled with
  | done => cases member
  | @declaration offset gap part rest first _ _ fills _ ih =>
    rcases List.mem_cons.1 member with rfl | later
    · exact ⟨gap, part, rest, rfl, fills⟩
    · obtain ⟨front, own, behind, rfl, stands⟩ := ih later
      refine ⟨gap ++ (part ++ front), own, behind, by simp, ?_⟩
      rwa [size_append, size_append, ← Nat.add_assoc, ← Nat.add_assoc]

theorem pairwise (tiled : Tiled offset cs decls) : decls.Pairwise Declaration.EndsBy := by
  induction tiled with
  | done => exact .nil
  | @declaration offset gap part rest first decls _ fills after ih =>
    refine .cons (fun decl member => ?_) ih
    obtain ⟨front, _, _, rfl, stands⟩ := after.stands member
    simp only [Declaration.EndsBy, fills.span, stands.span]
    exact Nat.le_add_right _ _

theorem starts (tiled : Tiled offset cs decls) :
    decls.Pairwise fun a b => a.span.start < b.span.start := by
  refine tiled.pairwise.imp_of_mem fun {a b} first _ ends => ?_
  obtain ⟨_, _, _, -, fills⟩ := tiled.stands first
  exact Nat.lt_of_lt_of_le fills.start_lt_stop ends

end Tiled

theorem Token.span_of_mem_name? {token : Token} {name : Name}
    (member : name ∈ token.name?.toList) : name.span = token.span := by
  obtain ⟨lexeme, span⟩ := token
  cases lexeme <;> simp_all [Token.name?]

namespace Stage

def begun? : Stage → Option (Keyword × Nat)
  | .opening | .settled => none
  | .machineName start => some (.machine, start)
  | .stateName start | .stateFlag start _ => some (.state, start)
  | .transitionName start | .sourceWord start _ | .sourceName start _ | .targetWord start _ _
  | .targetName start _ _ | .guardWord start _ _ _ | .guardText start _ _ _ =>
    some (.transition, start)

structure Ends (stage : Stage) (decl : Declaration) (names : List Name) (stop : Nat) : Prop where
  begun : stage.begun? = some (decl.keyword, decl.span.start)
  names : decl.names = names
  stop : decl.span.stop = stop

theorem finish?_cases {stage : Stage} {offset : Nat} {decls : List Declaration}
    (done : stage.finish? offset = some decls) :
    stage.begun? = none ∧ decls = [] ∨
      ∃ decl, decls = [decl] ∧ stage.Ends decl stage.names offset := by
  cases stage <;> simp_all [finish?, begun?] <;> subst done <;>
    exact ⟨_, rfl, rfl, rfl, rfl⟩

inductive Advances (stage : Stage) (token : Token) : List Declaration → Stage → Prop where
  | within {next : Stage} (begun : next.begun? = stage.begun?)
      (names : next.names = stage.names ++ token.name?.toList)
      (some : stage.begun? ≠ none) : Advances stage token [] next
  | last {decl : Declaration} (ends : stage.Ends decl (stage.names ++ token.name?.toList)
      token.span.stop) : Advances stage token [decl] .settled
  | first {word : Keyword} {decls : List Declaration} {next : Stage}
      (keyword : token.lexeme = .keyword word) (begun : next.begun? = some (word, token.span.start))
      (names : next.names = []) (done : stage.finish? token.span.start = some decls) :
      Advances stage token decls next

theorem advances {stage next : Stage} {token : Token} {decls : List Declaration}
    (fits : stage.advance? token = some (decls, next)) : stage.Advances token decls next := by
  obtain ⟨lexeme, span⟩ := token
  simp only [advance?] at fits
  split at fits
  -- The words that begin a declaration; those of states and transitions finish the one before.
  case h_1 =>
    obtain ⟨rfl, rfl⟩ := Prod.mk.inj (Option.some.inj fits)
    exact .first rfl rfl rfl rfl
  case h_12 | h_13 =>
    obtain ⟨finished, done, same⟩ := Option.map_eq_some_iff.1 fits
    obtain ⟨rfl, rfl⟩ := Prod.mk.inj same
    exact .first rfl rfl rfl done
  -- The tokens that can only be the last of their declarations.
  case h_2 | h_4 | h_11 =>
    obtain ⟨rfl, rfl⟩ := Prod.mk.inj (Option.some.inj fits)
    exact .last ⟨rfl, rfl, rfl⟩
  case h_14 => cases fits
  all_goals
    obtain ⟨rfl, rfl⟩ := Prod.mk.inj (Option.some.inj fits)
    exact .within rfl rfl (Option.some_ne_none _)

-- The given part of a text belongs to the declaration that is being read; where none is, there is
-- no such part.
inductive Begun (stage : Stage) (start : Nat) : List Char → List Char → Prop where
  | nothing {rest : List Char} (none : stage.begun? = none) : Begun stage start [] rest
  | declaration {word : Keyword} {part rest : List Char} (begun : stage.begun? = some (word, start))
      (opens : word.Opens part rest)
      (inside : ∀ name ∈ stage.names, Span.Covers ⟨start, start + size part⟩ name.span) :
      Begun stage start part rest

variable {stage next : Stage} {start : Nat} {part between rest : List Char} {token : Token}
  {decl : Declaration} {decls more : List Declaration}

theorem Begun.eq_nil (begun : stage.Begun start part rest) (none : stage.begun? = none) :
    part = [] := by
  cases begun with
  | nothing => rfl
  | declaration some => simp [none] at some

theorem names_eq_nil (none : stage.begun? = none) : stage.names = [] := by
  cases stage <;> simp_all [begun?, names]

theorem Begun.covers (begun : stage.Begun start part (between ++ rest)) :
    ∀ name ∈ stage.names, Span.Covers ⟨start, start + size (part ++ between)⟩ name.span := by
  intro name member
  cases begun with
  | nothing none => simp [names_eq_nil none] at member
  | declaration _ _ inside =>
    obtain ⟨starts, stops⟩ := inside name member
    refine ⟨starts, stops.trans ?_⟩
    simp [size_append, ← Nat.add_assoc]

theorem Begun.covers_token (begun : stage.Begun start part (between ++ rest))
    (place : Span.Covers ⟨start, start + size (part ++ between)⟩ token.span) :
    ∀ name ∈ stage.names ++ token.name?.toList,
      Span.Covers ⟨start, start + size (part ++ between)⟩ name.span := by
  intro name member
  rcases List.mem_append.1 member with old | new
  · exact begun.covers name old
  · rwa [Token.span_of_mem_name? new]

theorem Ends.fills {names : List Name}
    (ends : stage.Ends decl names (start + size (part ++ between)))
    (begun : stage.Begun start part (between ++ rest))
    (inside : ∀ name ∈ names, Span.Covers ⟨start, start + size (part ++ between)⟩ name.span) :
    decl.Fills start (part ++ between) rest := by
  obtain ⟨same, listed, stop⟩ := ends
  cases begun with
  | nothing none => simp [none] at same
  | declaration found opens =>
    obtain ⟨rfl, from_start⟩ := Prod.mk.inj (Option.some.inj (found.symm.trans same))
    have span : decl.span = ⟨start, start + size (part ++ between)⟩ := by rw [← stop, from_start]
    exact ⟨span, opens.extend, by rwa [span, listed]⟩

theorem Begun.finish (begun : stage.Begun start part (between ++ rest))
    (skips : Skips (between ++ rest) rest)
    (done : stage.finish? (start + size (part ++ between)) = some decls)
    (after : Tiled (start + size (part ++ between)) rest more) :
    Tiled start (part ++ (between ++ rest)) (decls ++ more) := by
  rcases finish?_cases done with ⟨none, rfl⟩ | ⟨decl, rfl, ends⟩
  · obtain rfl := begun.eq_nil none
    exact after.skip skips
  · rw [← List.append_assoc]
    exact .next (ends.fills begun begun.covers) after

theorem Begun.advance {spelling : List Char}
    (begun : stage.Begun start part (between ++ (spelling ++ rest)))
    (skips : Skips (between ++ (spelling ++ rest)) (spelling ++ rest))
    (opens : ∀ word, token.lexeme = .keyword word → word.Opens spelling rest)
    (place : token.span =
      ⟨start + size (part ++ between), start + size (part ++ (between ++ spelling))⟩)
    (fits : stage.Advances token decls next) :
    ∃ start' part', next.Begun start' part' rest ∧ start' + size part' = token.span.stop ∧
      ∀ more, Tiled start' (part' ++ rest) more →
        Tiled start (part ++ (between ++ (spelling ++ rest))) (decls ++ more) := by
  have whole : part ++ (between ++ (spelling ++ rest)) =
      (part ++ (between ++ spelling)) ++ rest := by simp
  have extended : stage.Begun start part ((between ++ spelling) ++ rest) := by simpa using begun
  have covered : ∀ name ∈ stage.names ++ token.name?.toList,
      Span.Covers ⟨start, start + size (part ++ (between ++ spelling))⟩ name.span :=
    extended.covers_token (by simp [place, Span.Covers])
  cases fits with
  | within same names reading =>
    refine ⟨start, part ++ (between ++ spelling), ?_, by rw [place], fun more after => ?_⟩
    · cases extended with
      | nothing none => exact absurd none reading
      | declaration found opens =>
        exact .declaration (same.trans found) opens.extend (names ▸ covered)
    · rwa [whole]
  | last ends =>
    refine ⟨token.span.stop, [], .nothing rfl, rfl, fun more after => ?_⟩
    rw [place] at ends after
    rw [whole]
    exact .next (ends.fills extended covered) after
  | first keyword same names done =>
    refine ⟨token.span.start, spelling, .declaration same (opens _ keyword) (by simp [names]), ?_,
      fun more after => ?_⟩
    · simp [place, size_append, Nat.add_assoc]
    · rw [place] at done after
      exact begun.finish skips done after

end Stage

-- By induction on the tokens as they stand in the text. What has been read of a declaration, from
-- its keyword on, is carried along as a part in front of the rest.
theorem tiled_readAll {offset start : Nat} {part cs : List Char} {stage : Stage}
    {stream : TokenStream} {decls : List Declaration} (stands : stream.Stands offset cs)
    (begun : stage.Begun start part cs) (behind : start + size part = offset)
    (read : readAll stage stream = some decls) : Tiled start (part ++ cs) decls := by
  induction stands generalizing start part stage decls with
  | @finished offset cs skips =>
    subst behind
    rw [Nat.add_assoc, ← size_append, readAll_finished] at read
    rw [← List.append_nil cs] at begun skips ⊢
    rw [← List.append_nil decls]
    exact begun.finish skips read (.done (.done []))
  | @token offset gap spelling rest lexeme stream skips opens after ih =>
    subst behind
    have stop : start + size part + size gap + size spelling =
        start + size (part ++ (gap ++ spelling)) := by simp [size_append, Nat.add_assoc]
    rw [readAll_token] at read
    obtain ⟨⟨completed, next⟩, fits, read⟩ := Option.bind_eq_some_iff.1 read
    obtain ⟨more, later, rfl⟩ := Option.map_eq_some_iff.1 read
    have place : start + size part + size gap = start + size (part ++ gap) := by
      rw [size_append, Nat.add_assoc]
    obtain ⟨start', part', carried, behind, tiled⟩ :=
      begun.advance skips opens (by rw [stop, place]) (Stage.advances fits)
    exact tiled more (ih carried behind later)

def Model.declarations (model : Model) : List Declaration :=
  (model.machine.map Declaration.machine).toList ++
    (model.states.map Declaration.state ++
      model.transitions.map Declaration.transition).mergeSort Declaration.le

theorem perm_of_plain {decls : List Declaration} (plain : ∀ decl ∈ decls, decl.machine? = none) :
    ((decls.filterMap Declaration.state?).map Declaration.state ++
      (decls.filterMap Declaration.transition?).map Declaration.transition).Perm decls := by
  induction decls with
  | nil => exact .refl _
  | cons decl decls ih =>
    have rest := ih fun other member => plain other (List.mem_cons_of_mem _ member)
    cases decl with
    | machine => cases plain _ (.head _)
    | state => exact rest.cons _
    | transition => exact List.perm_middle.trans (rest.cons _)

theorem Declaration.le_iff {a b : Declaration} : a.le b = true ↔ a.span.start ≤ b.span.start :=
  decide_eq_true_iff

theorem Declaration.pairwise_mergeSort_le (decls : List Declaration) :
    (decls.mergeSort Declaration.le).Pairwise fun a b => a.le b = true := by
  apply List.pairwise_mergeSort
  · intro a b c
    simp only [Declaration.le_iff]
    exact Nat.le_trans
  · intro a b
    simp only [Bool.or_eq_true, Declaration.le_iff]
    exact Nat.le_total ..

-- No two declarations start at the same place, so sorting by start restores the order.
theorem mergeSort_le_of_perm {decls listed : List Declaration}
    (starts : decls.Pairwise fun a b => a.span.start < b.span.start) (same : listed.Perm decls) :
    listed.mergeSort Declaration.le = decls := by
  have distinct : (decls.map fun decl => decl.span.start).Nodup :=
    List.pairwise_map.2 (starts.imp Nat.ne_of_lt)
  have sorted := (List.mergeSort_perm listed Declaration.le).trans same
  refine sorted.eq_of_pairwise (fun a b first second below above => ?_)
    (Declaration.pairwise_mergeSort_le listed)
    (starts.imp fun lt => Declaration.le_iff.2 (Nat.le_of_lt lt))
  exact List.inj_on_of_nodup_map distinct (sorted.subset first) second
    (Nat.le_antisymm (Declaration.le_iff.1 below) (Declaration.le_iff.1 above))

theorem plain_of_readAll_settled {stream : TokenStream} {decls : List Declaration}
    (read : readAll .settled stream = some decls) : ∀ decl ∈ decls, decl.machine? = none := by
  obtain ⟨items, same, -⟩ := lexemes_of_readAll_settled read
  exact List.findSome?_eq_none_iff.1 (findSome?_machine?_eq_none same)

theorem exists_plain_of_readAll_opening {stream : TokenStream} {decls : List Declaration}
    (read : readAll .opening stream = some decls) :
    ∃ (machine : Option MachineDecl) (rest : List Declaration),
      decls = (machine.map Declaration.machine).toList ++ rest ∧
        ∀ decl ∈ rest, decl.machine? = none := by
  rw [readAll_opening] at read
  split at read
  · next machine later _ =>
    obtain ⟨rest, settled, rfl⟩ := Option.map_eq_some_iff.1 read
    exact ⟨some machine, rest, rfl, plain_of_readAll_settled settled⟩
  · exact ⟨none, decls, rfl, plain_of_readAll_settled read⟩

theorem declarations_ofDeclarations {decls : List Declaration} {stream : TokenStream}
    (read : readAll .opening stream = some decls)
    (starts : decls.Pairwise fun a b => a.span.start < b.span.start) :
    (Model.ofDeclarations decls).declarations = decls := by
  obtain ⟨machine, rest, rfl, plain⟩ := exists_plain_of_readAll_opening read
  have sorted := mergeSort_le_of_perm (List.pairwise_append.1 starts).2.1 (perm_of_plain plain)
  have others : rest.findSome? Declaration.machine? = none := List.findSome?_eq_none_iff.2 plain
  cases machine with
  | none => simp [Model.declarations, Model.ofDeclarations, others, sorted]
  | some decl =>
    rw [Option.map_some, Option.toList_some, List.singleton_append, ofDeclarations_cons_machine]
    simp [Model.declarations, Model.ofDeclarations, sorted]

theorem Model.declarations_of_parse {text : String} {model : Model}
    (parsed : parse text = .ok model) :
    readFrom .opening (TokenStream.ofText text) = .ok model.declarations ∧
      Tiled 0 text.toList model.declarations := by
  rw [parse] at parsed
  split at parsed
  case h_2 => cases parsed
  next decls read =>
  obtain rfl := Except.ok.inj parsed
  have all : readAll .opening (TokenStream.ofText text) = some decls := by rw [readAll, read]; rfl
  have complete := (readAll_opening_iff.1 ⟨decls, all, rfl⟩).1
  have tiled : Tiled 0 text.toList decls :=
    tiled_readAll (TokenStream.stands_scan complete) (.nothing rfl) rfl all
  rw [declarations_ofDeclarations all tiled.starts]
  exact ⟨read, tiled⟩

theorem spans_faithful {text : String} {model : Model} (parsed : Model.parse text = .ok model) :
    Tiled 0 text.toList model.declarations ∧
      (∀ decl ∈ model.declarations, ∃ front part rest, text.toList = front ++ (part ++ rest) ∧
        decl.Fills (size front) part rest) ∧
      model.declarations.Pairwise Declaration.EndsBy ∧
      (∀ name ∈ model.declarations.flatMap Declaration.names, name.StandsIn 0 text.toList) ∧
      (model.declarations.flatMap Declaration.names).Pairwise Name.EndsBefore := by
  obtain ⟨read, tiled⟩ := Model.declarations_of_parse parsed
  have names : model.declarations.flatMap Declaration.names = (TokenStream.ofText text).names :=
    names_readFrom read
  rw [names]
  refine ⟨tiled, fun decl member => ?_, tiled.pairwise, fun name member => ?_, ?_⟩
  · obtain ⟨front, part, rest, split, fills⟩ := tiled.stands member
    rw [Nat.zero_add] at fills
    exact ⟨front, part, rest, split, fills⟩
  · exact TokenStream.standsIn_of_mem_names member
  · exact TokenStream.pairwise_names 0 text.toList

-- A state without a flag takes what was skipped in search of it, comments and all.
theorem spans_faithful_swallowed_comment :
    let text := "machine M state A //é\ntransition t from A to A when \"é\" //é\nstate B"
    ∃ model, Model.parse text = .ok model ∧
      model.declarations.map Declaration.span = [⟨0, 9⟩, ⟨10, 23⟩, ⟨23, 57⟩, ⟨63, 70⟩] ∧
      Tiled 0 text.toList model.declarations ∧
      (model.declarations.flatMap Declaration.names).Pairwise Name.EndsBefore := by
  intro text
  let machine : MachineDecl := ⟨⟨"M", ⟨8, 9⟩⟩, ⟨0, 9⟩⟩
  let first : StateDecl := ⟨⟨"A", ⟨16, 17⟩⟩, false, ⟨10, 23⟩⟩
  let second : StateDecl := ⟨⟨"B", ⟨69, 70⟩⟩, false, ⟨63, 70⟩⟩
  let loop : TransitionDecl :=
    ⟨⟨"t", ⟨34, 35⟩⟩, ⟨"A", ⟨41, 42⟩⟩, ⟨"A", ⟨46, 47⟩⟩, some "é", ⟨23, 57⟩⟩
  have parsed : Model.parse text = .ok ⟨some machine, [first, second], [loop]⟩ := by
    decide +kernel
  have order : (Model.mk (some machine) [first, second] [loop]).declarations =
      [.machine machine, .state first, .transition loop, .state second] :=
    congrArg (List.cons _) (mergeSort_le_of_perm (by decide) (.cons _ (.swap ..)))
  obtain ⟨tiled, -, -, -, apart⟩ := spans_faithful parsed
  exact ⟨_, parsed, congrArg (List.map Declaration.span) order, tiled, apart⟩

end FsmWorkbench
