import FsmWorkbench.Proofs.Notation.Fronts
import FsmWorkbench.Proofs.Notation.Moving
import FsmWorkbench.Proofs.Notation.Spanning

set_option autoImplicit false

namespace FsmWorkbench

open Text

-- Everything stands further behind by the given number of bytes.
section Shifted

variable (distance : Nat)

def Span.shifted (span : Span) : Span :=
  ⟨distance + span.start, distance + span.stop⟩

def Name.shifted (name : Name) : Name :=
  name.moved (Span.shifted distance)

def MachineDecl.shifted (machine : MachineDecl) : MachineDecl :=
  ⟨machine.name.shifted distance, machine.span.shifted distance⟩

def StateDecl.shifted (state : StateDecl) : StateDecl :=
  ⟨state.name.shifted distance, state.initial, state.span.shifted distance⟩

def TransitionDecl.shifted (transition : TransitionDecl) : TransitionDecl :=
  ⟨transition.name.shifted distance, transition.source.shifted distance,
    transition.target.shifted distance, transition.guard, transition.span.shifted distance⟩

def Declaration.shifted : Declaration → Declaration :=
  mapped (MachineDecl.shifted distance) (StateDecl.shifted distance)
    (TransitionDecl.shifted distance)

def Model.shifted : Model → Model :=
  mapped (MachineDecl.shifted distance) (StateDecl.shifted distance)
    (TransitionDecl.shifted distance)

def Stage.shifted : Stage → Stage
  | .opening => .opening
  | .machineName start => .machineName (distance + start)
  | .settled => .settled
  | .stateName start => .stateName (distance + start)
  | .stateFlag start name => .stateFlag (distance + start) (name.shifted distance)
  | .transitionName start => .transitionName (distance + start)
  | .sourceWord start name => .sourceWord (distance + start) (name.shifted distance)
  | .sourceName start name => .sourceName (distance + start) (name.shifted distance)
  | .targetWord start name source =>
    .targetWord (distance + start) (name.shifted distance) (source.shifted distance)
  | .targetName start name source =>
    .targetName (distance + start) (name.shifted distance) (source.shifted distance)
  | .guardWord start name source target =>
    .guardWord (distance + start) (name.shifted distance) (source.shifted distance)
      (target.shifted distance)
  | .guardText start name source target =>
    .guardText (distance + start) (name.shifted distance) (source.shifted distance)
      (target.shifted distance)

def Token.shifted (token : Token) : Token :=
  ⟨token.lexeme, token.span.shifted distance⟩

def TokenStream.shifted : TokenStream → TokenStream
  | .finished offset => .finished (distance + offset)
  | .blocked offset => .blocked (distance + offset)
  | .token head rest => .token (head.shifted distance) rest.shifted

end Shifted

variable {distance : Nat}

theorem TokenStream.start_shifted (stream : TokenStream) :
    (stream.shifted distance).start = distance + stream.start := by
  cases stream <;> rfl

-- Cutting a text into tokens does not go by where it stands.
theorem TokenStream.scan_shifted (distance offset : Nat) (cs : List Char) :
    scan (distance + offset) cs = (scan offset cs).shifted distance := by
  fun_induction scan offset cs with
  | case1 offset => rw [scan_nil]; rfl
  | case2 offset c rest separator ih =>
    rw [scan_separator separator, Nat.add_assoc, ih]
  | case3 offset c rest _ slashes ih =>
    obtain ⟨rfl, second⟩ := slashes
    obtain ⟨more, rfl⟩ := List.head?_eq_some_iff.1 second
    rw [scan_comment, Nat.add_assoc]
    rw [List.takeWhile_cons_of_pos (by decide), List.dropWhile_cons_of_pos (by decide)] at ih
    rw [List.takeWhile_cons_of_pos (by decide), List.dropWhile_cons_of_pos (by decide), ih]
  | case4 offset c rest _ _ starts word ih =>
    rw [scan_word starts, shifted, ← ih]
    simp only [word, Token.shifted, Span.shifted, Nat.add_assoc]
  | case5 offset rest content after closed _ _ _ next ih =>
    rw [scan_quote, closed, shifted, ← ih]
    simp only [next, content, Token.shifted, Span.shifted, Nat.add_assoc]
  | case6 offset rest open_ =>
    rw [scan_quote]
    dsimp only
    split
    · next after closed => exact absurd closed (open_ after)
    · rfl
  | case7 offset c rest separator comment word quote =>
    rw [scan, if_neg separator, if_neg comment, if_neg word, if_neg quote]
    rfl

theorem Stage.finish?_shifted (stage : Stage) (offset : Nat) :
    (stage.shifted distance).finish? (distance + offset) =
      (stage.finish? offset).map (·.map (Declaration.shifted distance)) := by
  cases stage <;> rfl

theorem Stage.advance?_shifted (distance : Nat) (stage : Stage) (token : Token) :
    (stage.shifted distance).advance? (token.shifted distance) =
      (stage.advance? token).map fun step =>
        (step.1.map (Declaration.shifted distance), step.2.shifted distance) := by
  obtain ⟨lexeme, span⟩ := token
  cases lexeme with
  | keyword word => cases word <;> cases stage <;> rfl
  | name text => cases stage <;> rfl
  | quoted content => cases stage <;> rfl

theorem readAll_shifted (stage : Stage) (stream : TokenStream) :
    readAll (stage.shifted distance) (stream.shifted distance) =
      (readAll stage stream).map (·.map (Declaration.shifted distance)) := by
  induction stream generalizing stage with
  | finished offset =>
    rw [TokenStream.shifted, readAll_finished, readAll_finished]
    exact stage.finish?_shifted offset
  | blocked offset => rfl
  | token head rest ih =>
    rw [TokenStream.shifted, readAll_token, readAll_token, stage.advance?_shifted]
    cases stage.advance? head with
    | none => rfl
    | some step =>
      obtain ⟨decls, next⟩ := step
      simp only [Option.map_some, Option.bind_some, ih, Option.map_map]
      cases readAll next rest <;> simp

theorem begins_tokens {offset : Nat} {cs : List Char}
    (complete : (TokenStream.scan offset cs).complete = true) :
    Begins offset cs (TokenStream.scan offset cs).tokens := by
  fun_induction TokenStream.scan offset cs with
  | case1 offset => exact .nil offset
  | case2 offset c rest separator ih => exact .separator separator (ih complete)
  | case3 offset c rest _ slashes ih =>
    obtain ⟨rfl, second⟩ := slashes
    obtain ⟨more, rfl⟩ := List.head?_eq_some_iff.1 second
    have part : isCommentPart '/' = true := by decide
    have begun := ih complete
    rw [List.takeWhile_cons_of_pos part, List.dropWhile_cons_of_pos part] at begun
    rw [List.dropWhile_cons_of_pos part]
    have whole := Begins.comment (fun _ => eq_true_of_mem_takeWhile)
      (fun _ => eq_false_of_mem_head?_dropWhile) begun
    rwa [List.cons_append, List.cons_append, List.takeWhile_append_dropWhile] at whole
  | case4 offset c rest _ _ starts word ih =>
    have whole := Begins.word starts (fun _ => eq_true_of_mem_takeWhile)
      (fun _ => eq_false_of_mem_head?_dropWhile) (ih complete)
    rwa [List.cons_append, List.takeWhile_append_dropWhile] at whole
  | case5 offset rest content after closed _ _ _ next ih =>
    have whole := Begins.quoted (fun _ => eq_true_of_mem_takeWhile) (ih complete)
    rwa [List.cons_append, ← closed, List.takeWhile_append_dropWhile] at whole
  | case6 | case7 => cases complete

theorem scan_eq_prepend {offset : Nat} {cs : List Char}
    (complete : (TokenStream.scan offset cs).complete = true) :
    TokenStream.scan offset cs = (TokenStream.finished (offset + size cs)).prepend
      (TokenStream.scan offset cs).tokens := by
  have alone := begins_tokens complete [] (by simp)
  rwa [List.append_nil, TokenStream.scan_nil] at alone

theorem scan_stacked {p : List Char} (complete : (TokenStream.scan 0 p).complete = true)
    (q : List Char) :
    TokenStream.scan 0 (p ++ '\n' :: q) =
      ((TokenStream.scan 0 q).shifted (size p + 1)).prepend (TokenStream.scan 0 p).tokens := by
  rw [begins_tokens complete _ (by simp), TokenStream.scan_separator (by decide), Nat.zero_add,
    ← TokenStream.scan_shifted]
  rfl

-- Without its optional last part a declaration reaches up to what follows it.
section UpTo

variable (stop : Nat)

def StateDecl.upTo (state : StateDecl) : StateDecl :=
  if state.initial then state else { state with span := ⟨state.span.start, stop⟩ }

def TransitionDecl.upTo (transition : TransitionDecl) : TransitionDecl :=
  if transition.guard.isSome then transition
  else { transition with span := ⟨transition.span.start, stop⟩ }

def Declaration.upTo : Declaration → Declaration :=
  mapped id (StateDecl.upTo stop) (TransitionDecl.upTo stop)

end UpTo

def Declaration.Closed (decl : Declaration) : Prop :=
  ∀ stop, decl.upTo stop = decl

namespace Stage

variable {stage next last : Stage} {tokens : List Token} {done decls : List Declaration}

theorem finish?_upTo {first : Nat} (finished : stage.finish? first = some decls) (second : Nat) :
    stage.finish? second = some (decls.map (Declaration.upTo second)) := by
  cases stage <;> simp_all [finish?] <;> subst finished <;> rfl

theorem closed_of_advance? {token : Token} (fits : stage.advance? token = some (decls, next))
    (settled : next.begun? = none) : ∃ decl, decls = [decl] ∧ decl.Closed := by
  obtain ⟨lexeme, span⟩ := token
  simp only [advance?] at fits
  split at fits
  case h_2 | h_4 | h_11 =>
    obtain ⟨rfl, -⟩ := Prod.mk.inj (Option.some.inj fits)
    exact ⟨_, rfl, fun _ => rfl⟩
  case h_12 | h_13 =>
    obtain ⟨_, -, same⟩ := Option.map_eq_some_iff.1 fits
    obtain ⟨-, rfl⟩ := Prod.mk.inj same
    cases settled
  case h_14 => cases fits
  all_goals
    obtain ⟨-, rfl⟩ := Prod.mk.inj (Option.some.inj fits)
    cases settled

-- Tokens take a stage to another and complete declarations on the way, whatever follows. If they
-- leave nothing unfinished, the last of these declarations is closed.
structure Passes (stage : Stage) (tokens : List Token) (done : List Declaration) (last : Stage) :
    Prop where
  read : ∀ stream, readAll stage (stream.prepend tokens) = (readAll last stream).map (done ++ ·)
  closed : last.begun? = none → done = [] ∧ stage.begun? = none ∨
    ∃ more decl, done = more ++ [decl] ∧ decl.Closed

theorem Passes.nil (stage : Stage) : stage.Passes [] [] stage :=
  ⟨fun _ => by simp, fun none => .inl ⟨rfl, none⟩⟩

theorem Passes.cons {head : Token} (fits : stage.advance? head = some (decls, next))
    (passes : next.Passes tokens done last) :
    stage.Passes (head :: tokens) (decls ++ done) last := by
  constructor
  · intro stream
    rw [TokenStream.prepend_cons, readAll_token, fits, Option.bind_some]
    dsimp only
    rw [passes.read, Option.map_map]
    congr 1
    funext more
    exact (List.append_assoc ..).symm
  · intro settled
    right
    rcases passes.closed settled with ⟨rfl, here⟩ | ⟨more, decl, rfl, closed⟩
    · obtain ⟨decl, rfl, closed⟩ := closed_of_advance? fits here
      exact ⟨[], decl, rfl, closed⟩
    · exact ⟨decls ++ more, decl, (List.append_assoc ..).symm, closed⟩

theorem exists_passes {stream : TokenStream}
    (read : readAll stage (stream.prepend tokens) = some decls) :
    ∃ done last, stage.Passes tokens done last := by
  induction tokens generalizing stage decls with
  | nil => exact ⟨[], stage, .nil stage⟩
  | cons head tokens ih =>
    rw [TokenStream.prepend_cons, readAll_token] at read
    obtain ⟨⟨completed, next⟩, fits, read⟩ := Option.bind_eq_some_iff.1 read
    obtain ⟨more, later, -⟩ := Option.map_eq_some_iff.1 read
    obtain ⟨done, last, passes⟩ := ih later
    exact ⟨completed ++ done, last, passes.cons fits⟩

-- Where a declaration may end, reading goes on as if none had been begun.
theorem readAll_of_settled {stream : TokenStream}
    (finished : stage.finish? stream.start = some done)
    (read : readAll .settled stream = some decls) :
    readAll stage stream = some (done ++ decls) := by
  cases stream with
  | finished offset =>
    rw [readAll_finished] at read ⊢
    obtain rfl := Option.some.inj read
    rw [List.append_nil]
    exact finished
  | blocked => cases read
  | token head rest =>
    obtain ⟨lexeme, span⟩ := head
    rw [readAll_token] at read ⊢
    obtain ⟨⟨completed, next⟩, fits, read⟩ := Option.bind_eq_some_iff.1 read
    have same : completed = [] ∧ stage.advance? ⟨lexeme, span⟩ =
        (stage.finish? span.start).map (·, next) := by
      rcases lexeme with word | text | content
      case keyword => cases word <;> cases fits <;> exact ⟨rfl, by cases stage <;> rfl⟩
      all_goals cases fits
    obtain ⟨rfl, advanced⟩ := same
    have goes := advanced.trans (congrArg (Option.map (·, next)) finished)
    obtain ⟨more, later, rfl⟩ := Option.map_eq_some_iff.1 read
    rw [goes, Option.map_some, Option.bind_some]
    dsimp only
    rw [later]
    rfl

end Stage

def extend (stop : Nat) (decls : List Declaration) (decl : Declaration) : Declaration :=
  if decls.getLast? = some decl then decl.upTo stop else decl

theorem map_extend_concat {stop : Nat} {decls : List Declaration} {decl : Declaration}
    (nodup : (decls ++ [decl]).Nodup) :
    (decls ++ [decl]).map (extend stop (decls ++ [decl])) = decls ++ [decl.upTo stop] := by
  have fresh : decl ∉ decls := by simpa using (List.nodup_append'.1 nodup).2.2
  have kept : decls.map (extend stop (decls ++ [decl])) = decls := by
    refine (List.map_congr_left fun other member => ?_).trans (List.map_id _)
    rw [extend, if_neg, id_eq]
    rw [List.getLast?_concat]
    rintro ⟨⟩
    exact fresh member
  rw [List.map_append, kept, List.map_singleton, extend, if_pos List.getLast?_concat]

-- Reading two texts one below the other: the first leaves off at a stage from which the second is
-- read as from the start, and which ends its last declaration there.
theorem readAll_stacked {p q : List Char} {decls more : List Declaration}
    (read : readAll .opening (TokenStream.scan 0 p) = some decls) (nodup : decls.Nodup)
    (complete : (TokenStream.scan 0 p).complete = true)
    (below : readAll .settled (TokenStream.scan 0 q) = some more) :
    readAll .opening (TokenStream.scan 0 (p ++ '\n' :: q)) =
      some (decls.map (extend (size p + 1 + (TokenStream.scan 0 q).start) decls) ++
        more.map (Declaration.shifted (size p + 1))) := by
  rw [scan_eq_prepend complete] at read
  obtain ⟨done, last, passes⟩ := Stage.exists_passes read
  rw [passes.read, readAll_finished] at read
  obtain ⟨ending, finished, rfl⟩ := Option.map_eq_some_iff.1 read
  have ends := Stage.finish?_upTo finished (size p + 1 + (TokenStream.scan 0 q).start)
  rw [← TokenStream.start_shifted] at ends ⊢
  have goes := Stage.readAll_of_settled ends
    ((readAll_shifted .settled _).trans (congrArg _ below))
  rw [scan_stacked complete, passes.read, goes, Option.map_some, ← List.append_assoc]
  congr 2
  rcases Stage.finish?_cases finished with ⟨settled, rfl⟩ | ⟨decl, rfl, -⟩
  · rw [List.append_nil] at nodup ⊢
    rcases passes.closed settled with ⟨rfl, -⟩ | ⟨front, decl, rfl, closed⟩
    · rfl
    · rw [map_extend_concat nodup, closed, List.map_nil, List.append_nil]
  · rw [map_extend_concat nodup, List.map_singleton]

namespace Model

def extended (stop : Nat) (model : Model) : Model :=
  model.mapped id
    (fun state =>
      if model.declarations.getLast? = some (.state state) then state.upTo stop else state)
    fun transition =>
      if model.declarations.getLast? = some (.transition transition) then transition.upTo stop
      else transition

def followedBy (first second : Model) : Model where
  machine := first.machine
  states := first.states ++ second.states
  transitions := first.transitions ++ second.transitions

theorem ofDeclarations_extend {model : Model}
    (made : ofDeclarations model.declarations = model) (stop : Nat) :
    ofDeclarations (model.declarations.map (extend stop model.declarations)) =
      model.extended stop := by
  have kinds : extend stop model.declarations = Declaration.mapped id
      (fun state =>
        if model.declarations.getLast? = some (.state state) then state.upTo stop else state)
      fun transition =>
        if model.declarations.getLast? = some (.transition transition) then transition.upTo stop
        else transition := by
    funext decl
    rw [extend]
    cases decl <;> simp only [Declaration.mapped, Declaration.upTo] <;> split <;> rfl
  rw [kinds, ofDeclarations_mapped, made, extended]

theorem ofDeclarations_append {decls more : List Declaration}
    (plain : (ofDeclarations more).machine = none) :
    ofDeclarations (decls ++ more) = (ofDeclarations decls).followedBy (ofDeclarations more) := by
  have none : more.findSome? Declaration.machine? = none := plain
  simp [ofDeclarations, followedBy, List.findSome?_append, none]

theorem readAll_of_parse {text : String} {model : Model} (parsed : parse text = .ok model) :
    readAll .opening (TokenStream.ofText text) = some model.declarations ∧
      ofDeclarations model.declarations = model := by
  obtain ⟨decls, all, same⟩ := parse_eq_ok_iff.1 parsed
  have again : readAll .opening (TokenStream.ofText text) = some model.declarations := by
    rw [readAll, (declarations_of_parse parsed).1]
    rfl
  obtain rfl := Option.some.inj (all.symm.trans again)
  exact ⟨again, same⟩

theorem nodup_declarations {text : String} {model : Model} (parsed : parse text = .ok model) :
    model.declarations.Nodup :=
  (declarations_of_parse parsed).2.starts.imp fun before same => by simp [same] at before

end Model

theorem readAll_settled_of_plain {stream : TokenStream} {decls : List Declaration}
    (read : readAll .opening stream = some decls)
    (plain : (Model.ofDeclarations decls).machine = none) :
    readAll .settled stream = some decls := by
  rw [readAll_opening] at read
  split at read
  · obtain ⟨rest, -, rfl⟩ := Option.map_eq_some_iff.1 read
    rw [ofDeclarations_cons_machine] at plain
    cases plain
  · exact read

theorem names_upTo (stop : Nat) (decl : Declaration) : (decl.upTo stop).names = decl.names := by
  cases decl with
  | machine => rfl
  | state decl =>
    simp only [Declaration.upTo, Declaration.mapped, Declaration.names, StateDecl.upTo]
    split <;> rfl
  | transition decl =>
    simp only [Declaration.upTo, Declaration.mapped, Declaration.names, TransitionDecl.upTo]
    split <;> rfl

theorem names_extend (stop : Nat) (decls : List Declaration) (decl : Declaration) :
    (extend stop decls decl).names = decl.names := by
  rw [extend]
  split
  · exact names_upTo stop decl
  · rfl

theorem names_shifted (distance : Nat) (decl : Declaration) :
    (decl.shifted distance).names = decl.names.map (Name.shifted distance) := by
  cases decl <;> rfl

theorem stacking_exact {p q : String} {first second : Model} (read : Model.parse p = .ok first)
    (below : Model.parse q = .ok second) (plain : second.machine = none) :
    let distance := size p.toList + 1
    let stop := distance + (TokenStream.ofText q).start
    let whole := (first.extended stop).followedBy (second.shifted distance)
    Model.parse (p ++ "\n" ++ q) = .ok whole ∧
      whole.declarations = first.declarations.map (extend stop first.declarations) ++
        second.declarations.map (Declaration.shifted distance) ∧
      whole.declarations.flatMap Declaration.names = first.declarations.flatMap Declaration.names ++
        (second.declarations.flatMap Declaration.names).map (Name.shifted distance) := by
  intro distance stop whole
  obtain ⟨all, made⟩ := Model.readAll_of_parse read
  obtain ⟨more, madeBelow⟩ := Model.readAll_of_parse below
  have complete := (readAll_opening_iff.1 ⟨_, all, rfl⟩).1
  have settled := readAll_settled_of_plain more (by rw [madeBelow, plain])
  have text : TokenStream.ofText (p ++ "\n" ++ q) =
      TokenStream.scan 0 (p.toList ++ '\n' :: q.toList) := by
    simp [TokenStream.ofText]
  have stacked : readAll .opening (TokenStream.ofText (p ++ "\n" ++ q)) =
      some (first.declarations.map (extend stop first.declarations) ++
        second.declarations.map (Declaration.shifted distance)) := by
    rw [text]
    exact readAll_stacked all (Model.nodup_declarations read) complete settled
  have parsed : Model.parse (p ++ "\n" ++ q) = .ok whole := by
    have moved : Model.ofDeclarations (second.declarations.map (Declaration.shifted distance)) =
        second.shifted distance :=
      (Model.ofDeclarations_mapped ..).trans (congrArg (Model.shifted distance) madeBelow)
    refine parse_eq_ok_iff.2 ⟨_, stacked, ?_⟩
    rw [Model.ofDeclarations_append (by rw [moved]; exact congrArg (Option.map _) plain), moved,
      Model.ofDeclarations_extend made]
  have listed : whole.declarations = first.declarations.map (extend stop first.declarations) ++
      second.declarations.map (Declaration.shifted distance) :=
    Option.some.inj ((Model.readAll_of_parse parsed).1.symm.trans stacked)
  refine ⟨parsed, listed, ?_⟩
  rw [listed, List.flatMap_append, List.flatMap_map, List.flatMap_map, List.map_flatMap]
  simp only [names_extend, names_shifted]

-- The state above reaches over its own comment and the one below it.
theorem stacking_exact_across_comment :
    let first : Model := ⟨none, [⟨⟨"A", ⟨6, 7⟩⟩, false, ⟨0, 12⟩⟩], []⟩
    let second : Model := ⟨none, [⟨⟨"B", ⟨9, 10⟩⟩, true, ⟨3, 18⟩⟩], []⟩
    Model.parse "state A //é" = .ok first ∧ Model.parse "//\nstate B initial" = .ok second ∧
      second.machine = none ∧
      Model.parse ("state A //é" ++ "\n" ++ "//\nstate B initial") =
        .ok ⟨none, [⟨⟨"A", ⟨6, 7⟩⟩, false, ⟨0, 16⟩⟩, ⟨⟨"B", ⟨22, 23⟩⟩, true, ⟨16, 31⟩⟩], []⟩ := by
  intro first second
  have read : Model.parse "state A //é" = .ok first := by decide +kernel
  have below : Model.parse "//\nstate B initial" = .ok second := by decide +kernel
  refine ⟨read, below, rfl, (stacking_exact read below rfl).1.trans ?_⟩
  have extended : first.extended 16 = ⟨none, [⟨⟨"A", ⟨6, 7⟩⟩, false, ⟨0, 16⟩⟩], []⟩ := by
    simp [first, Model.extended, Model.mapped, Model.declarations, StateDecl.upTo]
  have start : (TokenStream.ofText "//\nstate B initial").start = 3 := by decide +kernel
  rw [start]
  exact congrArg (fun above : Model => Except.ok (above.followedBy (second.shifted 13))) extended

end FsmWorkbench
