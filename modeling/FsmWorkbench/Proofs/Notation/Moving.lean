import FsmWorkbench.Proofs.Notation.Language
import FsmWorkbench.Proofs.Notation.Standing
import Mathlib.Data.List.GetD

set_option autoImplicit false

namespace FsmWorkbench

open Text

-- Names are moved, and all other spans are dropped.
section Moved

variable (move : Span → Span)

def Name.moved (name : Name) : Name :=
  ⟨name.text, move name.span⟩

def MachineDecl.moved (machine : MachineDecl) : MachineDecl :=
  ⟨machine.name.moved move, ⟨0, 0⟩⟩

def StateDecl.moved (state : StateDecl) : StateDecl :=
  ⟨state.name.moved move, state.initial, ⟨0, 0⟩⟩

def TransitionDecl.moved (transition : TransitionDecl) : TransitionDecl :=
  ⟨transition.name.moved move, transition.source.moved move, transition.target.moved move,
    transition.guard, ⟨0, 0⟩⟩

def Model.moved (model : Model) : Model where
  machine := model.machine.map (MachineDecl.moved move)
  states := model.states.map (StateDecl.moved move)
  transitions := model.transitions.map (TransitionDecl.moved move)

def Declaration.moved : Declaration → Declaration
  | .machine decl => .machine (decl.moved move)
  | .state decl => .state (decl.moved move)
  | .transition decl => .transition (decl.moved move)

def Stage.moved : Stage → Stage
  | .opening => .opening
  | .machineName _ => .machineName 0
  | .settled => .settled
  | .stateName _ => .stateName 0
  | .stateFlag _ name => .stateFlag 0 (name.moved move)
  | .transitionName _ => .transitionName 0
  | .sourceWord _ name => .sourceWord 0 (name.moved move)
  | .sourceName _ name => .sourceName 0 (name.moved move)
  | .targetWord _ name source => .targetWord 0 (name.moved move) (source.moved move)
  | .targetName _ name source => .targetName 0 (name.moved move) (source.moved move)
  | .guardWord _ name source target =>
    .guardWord 0 (name.moved move) (source.moved move) (target.moved move)
  | .guardText _ name source target =>
    .guardText 0 (name.moved move) (source.moved move) (target.moved move)

def Token.moved (token : Token) : Token :=
  ⟨token.lexeme, (token.name?.map fun name => move name.span).getD ⟨0, 0⟩⟩

def TokenStream.moved : TokenStream → TokenStream
  | .finished _ => .finished 0
  | .blocked _ => .blocked 0
  | .token head rest => .token (head.moved move) rest.moved

end Moved

variable {move : Span → Span}

theorem Stage.finish?_moved (stage : Stage) (first second : Nat) :
    ((stage.moved move).finish? first).map (·.map (Declaration.moved id)) =
      (stage.finish? second).map (·.map (Declaration.moved move)) := by
  cases stage <;> rfl

theorem Stage.advance?_moved (move : Span → Span) (stage : Stage) (token : Token) :
    ((stage.moved move).advance? (token.moved move)).map
        (fun step => (step.1.map (Declaration.moved id), step.2)) =
      (stage.advance? token).map
        fun step => (step.1.map (Declaration.moved move), step.2.moved move) := by
  obtain ⟨lexeme, span⟩ := token
  cases lexeme with
  | keyword word => cases word <;> cases stage <;> rfl
  | name text => cases stage <;> rfl
  | quoted content => cases stage <;> rfl

-- Reading commutes with moving: by induction on the tokens, each of which takes one step.
theorem readAll_moved (move : Span → Span) (stage : Stage) (stream : TokenStream) :
    (readAll (stage.moved move) (stream.moved move)).map (·.map (Declaration.moved id)) =
      (readAll stage stream).map (·.map (Declaration.moved move)) := by
  induction stream generalizing stage with
  | finished offset =>
    rw [TokenStream.moved, readAll_finished, readAll_finished]
    exact stage.finish?_moved 0 offset
  | blocked offset => rfl
  | token head rest ih =>
    have step := stage.advance?_moved move head
    rw [TokenStream.moved, readAll_token, readAll_token]
    cases fits : stage.advance? head with
    | none =>
      rw [fits] at step
      rw [Option.map_eq_none_iff.1 step]
      rfl
    | some found =>
      obtain ⟨decls, next⟩ := found
      rw [fits] at step
      obtain ⟨⟨others, later⟩, goes, same⟩ := Option.map_eq_some_iff.1 step
      obtain ⟨completed, rfl⟩ := Prod.mk.inj same
      have rests := ih next
      rw [goes]
      cases read : readAll next rest <;>
        cases readMoved : readAll (next.moved move) (rest.moved move) <;> simp_all

-- Declarations of each kind are changed in a way of their own.
section Mapped

variable (machine : MachineDecl → MachineDecl) (state : StateDecl → StateDecl)
  (transition : TransitionDecl → TransitionDecl)

def Declaration.mapped : Declaration → Declaration
  | .machine decl => .machine (machine decl)
  | .state decl => .state (state decl)
  | .transition decl => .transition (transition decl)

def Model.mapped (model : Model) : Model where
  machine := model.machine.map machine
  states := model.states.map state
  transitions := model.transitions.map transition

theorem Model.ofDeclarations_mapped (decls : List Declaration) :
    ofDeclarations (decls.map (Declaration.mapped machine state transition)) =
      (ofDeclarations decls).mapped machine state transition := by
  have machines : Declaration.machine? ∘ Declaration.mapped machine state transition =
      Option.map machine ∘ Declaration.machine? := by
    funext decl
    cases decl <;> rfl
  have states : Declaration.state? ∘ Declaration.mapped machine state transition =
      Option.map state ∘ Declaration.state? := by
    funext decl
    cases decl <;> rfl
  have transitions : Declaration.transition? ∘ Declaration.mapped machine state transition =
      Option.map transition ∘ Declaration.transition? := by
    funext decl
    cases decl <;> rfl
  simp only [ofDeclarations, mapped, List.findSome?_map, List.filterMap_map,
    List.map_filterMap, machines, states, transitions]
  simp [Function.comp_def, List.map_findSome?]

end Mapped

theorem Model.ofDeclarations_moved (decls : List Declaration) :
    (ofDeclarations decls).moved move = ofDeclarations (decls.map (Declaration.moved move)) := by
  have kinds : Declaration.moved move = Declaration.mapped (MachineDecl.moved move)
      (StateDecl.moved move) (TransitionDecl.moved move) := by
    funext decl
    cases decl <;> rfl
  rw [kinds, ofDeclarations_mapped]
  rfl

theorem Name.StandsIn.start_le {name : Name} {offset : Nat} {cs : List Char}
    (stands : name.StandsIn offset cs) :
    offset ≤ name.span.start ∧ name.span.start ≤ name.span.stop := by
  obtain ⟨-, front, rest, -, span⟩ := stands
  simp only [span]
  omega

namespace TokenStream

theorem moved_eq {stream other : TokenStream} (complete : stream.complete = true)
    (completeOther : other.complete = true) (same : other.lexemes = stream.lexemes)
    (names : other.names = stream.names.map (Name.moved move)) :
    other.moved id = stream.moved move := by
  induction stream generalizing other with
  | finished offset =>
    have ended := exhausted_of_lexemes_eq_nil completeOther same
    cases other <;> simp_all [exhausted, moved]
  | blocked offset => cases complete
  | token head rest ih =>
    obtain ⟨span, tail, rfl, later⟩ := exists_token_of_lexemes_eq_cons same
    obtain ⟨lexeme, place⟩ := head
    have rests := @ih tail complete completeOther later
    cases lexeme with
    | keyword word => simp_all [Token.name?, moved, Token.moved]
    | name text => simp_all [Token.name?, moved, Token.moved, Name.moved]
    | quoted content => simp_all [Token.name?, moved, Token.moved]

theorem names_map_text {stream other : TokenStream} (same : other.lexemes = stream.lexemes) :
    other.names.map Name.text = stream.names.map Name.text := by
  have texts : ∀ stream : TokenStream, stream.names.map Name.text =
      stream.lexemes.filterMap fun lexeme => (Token.name? ⟨lexeme, ⟨0, 0⟩⟩).map Name.text := by
    intro stream
    rw [names, lexemes, List.map_filterMap, List.filterMap_map]
    congr 1
    funext token
    obtain ⟨lexeme, span⟩ := token
    cases lexeme <;> rfl
  rw [texts, texts, same]

theorem lt_start_of_mem_names {offset : Nat} {cs : List Char} {head : Token} {rest : TokenStream}
    (scanned : scan offset cs = .token head rest) {name : Name} (member : name ∈ rest.names) :
    offset < name.span.start := by
  fun_induction scan offset cs with
  | case1 | case6 | case7 => cases scanned
  | case2 offset c rest _ ih =>
    have later := ih scanned
    omega
  | case3 offset c rest _ _ ih =>
    have later := ih scanned
    omega
  | case4 offset c rest _ _ starts word ih =>
    obtain ⟨-, rfl⟩ := TokenStream.token.inj scanned
    have behind := (standsIn_of_mem_names member).start_le
    have positive := c.utf8Size_pos
    simp only [word, size_cons] at behind
    omega
  | case5 offset rest content after closed _ _ _ next ih =>
    obtain ⟨-, rfl⟩ := TokenStream.token.inj scanned
    have behind := (standsIn_of_mem_names member).start_le
    omega

end TokenStream

-- Moving keeps the order of given spans and of the start of the text, which stays where it is.
structure Steady (move : Span → Span) (spans : List Span) : Prop where
  opening : move ⟨0, 0⟩ = ⟨0, 0⟩
  order : ∀ a ∈ ⟨0, 0⟩ :: spans, ∀ b ∈ ⟨0, 0⟩ :: spans,
    ((move a).start ≤ (move b).start ↔ a.start ≤ b.start)

def StartsBefore (a b : Span) : Prop :=
  a.start < b.start

theorem nodup_of_startsBefore {spans : List Span} (sorted : spans.Pairwise StartsBefore) :
    spans.Nodup := by
  refine sorted.imp fun before same => ?_
  rw [same] at before
  exact Nat.lt_irrefl _ before

theorem exists_map_eq {spans others : List Span} (nodup : spans.Nodup)
    (length : spans.length = others.length) : ∃ move : Span → Span, spans.map move = others := by
  -- Each span goes to the one at its own index, which only one of the spans has.
  refine ⟨fun span => others.getD (spans.idxOf span) ⟨0, 0⟩, ?_⟩
  refine List.ext_getElem (by simp [length]) fun index here there => ?_
  rw [List.getElem_map, nodup.idxOf_getElem, List.getD_eq_getElem _ _ there]

theorem exists_steady {spans others : List Span}
    (sorted : (⟨0, 0⟩ :: spans).Pairwise StartsBefore)
    (sortedOthers : (⟨0, 0⟩ :: others).Pairwise StartsBefore)
    (length : spans.length = others.length) :
    ∃ move, Steady move spans ∧ others = spans.map move := by
  obtain ⟨move, moves⟩ := exists_map_eq (nodup_of_startsBefore sorted)
    (show _ = (⟨0, 0⟩ :: others).length by simp [length])
  rw [← moves, List.pairwise_map] at sortedOthers
  have both := sorted.and sortedOthers
  obtain ⟨opening, rest⟩ := List.cons.inj moves
  have order := List.Pairwise.forall_of_forall_of_flip (l := ⟨0, 0⟩ :: spans)
    (R := fun a b => (move a).start ≤ (move b).start ↔ a.start ≤ b.start) (by simp)
    (both.imp fun before => by simp only [StartsBefore] at before; omega)
    (both.imp fun before => by simp only [StartsBefore, flip] at before ⊢; omega)
  exact ⟨move, ⟨opening, fun _ first _ second => order first second⟩, rest.symm⟩

theorem Steady.mono {spans fewer : List Span} (steady : Steady move spans)
    (within : ∀ span ∈ fewer, span ∈ spans) : Steady move fewer := by
  have kept : ∀ span ∈ ⟨0, 0⟩ :: fewer, span ∈ ⟨0, 0⟩ :: spans := by
    intro span member
    rw [List.mem_cons] at member ⊢
    exact member.imp_right (within span)
  exact ⟨steady.opening, fun a first b second => steady.order a (kept a first) b (kept b second)⟩

theorem eq_map_moved {names others : List Name}
    (texts : others.map Name.text = names.map Name.text)
    (spans : others.map Name.span = (names.map Name.span).map move) :
    others = names.map (Name.moved move) := by
  induction names generalizing others with
  | nil => simpa using texts
  | cons name names ih =>
    cases others with
    | nil => cases texts
    | cons other others =>
      obtain ⟨text, texts⟩ := List.cons.inj texts
      obtain ⟨span, spans⟩ := List.cons.inj spans
      rw [List.map_cons, ← ih texts spans, Name.moved, ← text, ← span]

theorem name?_eq_none_of_advance?_opening {token : Token} {step : List Declaration × Stage}
    (fits : Stage.opening.advance? token = some step) : token.name? = none := by
  obtain ⟨lexeme, span⟩ := token
  cases lexeme with
  | keyword word => rfl
  | name text => cases fits
  | quoted content => rfl

namespace Model

variable {text : String} {model : Model}

theorem start_pos_of_parse (read : parse text = .ok model) {name : Name}
    (member : name ∈ (TokenStream.ofText text).names) : 0 < name.span.start := by
  obtain ⟨decls, all, -⟩ := parse_eq_ok_iff.1 read
  cases scanned : TokenStream.ofText text with
  | finished offset => simp [scanned] at member
  | blocked offset => simp [scanned] at member
  | token head rest =>
    rw [scanned, readAll_token] at all
    obtain ⟨step, fits, -⟩ := Option.bind_eq_some_iff.1 all
    rw [scanned, TokenStream.names_token, name?_eq_none_of_advance?_opening fits] at member
    exact TokenStream.lt_start_of_mem_names scanned member

theorem startsBefore_of_parse (read : parse text = .ok model) :
    (⟨0, 0⟩ :: (TokenStream.ofText text).names.map Name.span).Pairwise StartsBefore := by
  rw [List.pairwise_cons, List.forall_mem_map, List.pairwise_map]
  refine ⟨fun name member => start_pos_of_parse read member, ?_⟩
  refine (TokenStream.pairwise_names 0 text.toList).imp_of_mem fun first _ before => ?_
  have inside := (TokenStream.standsIn_of_mem_names first).start_le
  simp only [Name.EndsBefore, StartsBefore] at before ⊢
  omega

def spans (model : Model) : List Span :=
  model.names.map fun occurrence => occurrence.name.span

theorem exists_moved {other : String} {pieces others : List (Nat × Piece)}
    (cut : Cuts 0 text.toList pieces) (cutOther : Cuts 0 other.toList others)
    (same : lexemesOf pieces = lexemesOf others) (read : parse text = .ok model) :
    ∃ found move, parse other = .ok found ∧ Steady move model.spans ∧
      found.moved id = model.moved move := by
  obtain ⟨found, readOther, -⟩ := parse_outline_of_lexemes cut cutOther same read
  obtain ⟨complete, lexemes⟩ := cut.scan 0
  obtain ⟨completeOther, lexemesOther⟩ := cutOther.scan 0
  have tokens : (TokenStream.ofText other).lexemes = (TokenStream.ofText text).lexemes :=
    lexemesOther.trans (same.symm.trans lexemes.symm)
  have texts := TokenStream.names_map_text tokens
  obtain ⟨move, steady, spans⟩ := exists_steady (startsBefore_of_parse read)
    (startsBefore_of_parse readOther) (by simpa using (congrArg List.length texts).symm)
  have streams : (TokenStream.ofText other).moved id = (TokenStream.ofText text).moved move :=
    TokenStream.moved_eq complete completeOther tokens (eq_map_moved texts spans)
  refine ⟨found, move, readOther, steady.mono ?_, ?_⟩
  · intro span member
    obtain ⟨occurrence, listed, rfl⟩ := List.mem_map.1 member
    exact List.mem_map_of_mem (mem_names_of_parse read (List.mem_map_of_mem listed))
  · obtain ⟨decls, all, rfl⟩ := parse_eq_ok_iff.1 read
    obtain ⟨declsOther, allOther, rfl⟩ := parse_eq_ok_iff.1 readOther
    have moved := readAll_moved move .opening (TokenStream.ofText text)
    have movedOther := readAll_moved id .opening (TokenStream.ofText other)
    rw [streams] at movedOther
    rw [all] at moved
    rw [allOther] at movedOther
    rw [ofDeclarations_moved, ofDeclarations_moved]
    exact congrArg ofDeclarations (Option.some.inj (movedOther.symm.trans moved))

end Model

end FsmWorkbench
