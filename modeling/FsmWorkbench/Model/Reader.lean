import FsmWorkbench.Model.ParseError
import FsmWorkbench.Token.Lexer

set_option autoImplicit false

namespace FsmWorkbench

inductive Declaration where
  | machine (decl : MachineDecl)
  | state (decl : StateDecl)
  | transition (decl : TransitionDecl)
  deriving DecidableEq, Repr, Inhabited

namespace Declaration

def machine? : Declaration → Option MachineDecl
  | .machine decl => some decl
  | _ => none

def state? : Declaration → Option StateDecl
  | .state decl => some decl
  | _ => none

def transition? : Declaration → Option TransitionDecl
  | .transition decl => some decl
  | _ => none

end Declaration

def Model.ofDeclarations (decls : List Declaration) : Model where
  machine := decls.findSome? Declaration.machine?
  states := decls.filterMap Declaration.state?
  transitions := decls.filterMap Declaration.transition?

inductive Stage where
  | opening
  | machineName (start : Nat)
  | settled
  | stateName (start : Nat)
  | stateFlag (start : Nat) (name : Name)
  | transitionName (start : Nat)
  | sourceWord (start : Nat) (name : Name)
  | sourceName (start : Nat) (name : Name)
  | targetWord (start : Nat) (name source : Name)
  | targetName (start : Nat) (name source : Name)
  | guardWord (start : Nat) (name source target : Name)
  | guardText (start : Nat) (name source target : Name)
  deriving DecidableEq, Repr, Inhabited

namespace Stage

def expected : Stage → List Expectation
  | .opening => [.endOfInput, .keyword .machine, .keyword .state, .keyword .transition]
  | .settled => [.endOfInput, .keyword .state, .keyword .transition]
  | .stateFlag .. => [.endOfInput, .keyword .state, .keyword .transition, .keyword .initial]
  | .guardWord .. => [.endOfInput, .keyword .state, .keyword .transition, .keyword .guard]
  | .machineName _ | .stateName _ | .transitionName _ | .sourceName .. | .targetName .. => [.name]
  | .sourceWord .. => [.keyword .source]
  | .targetWord .. => [.keyword .target]
  | .guardText .. => [.quoted]

-- The declaration that is complete if nothing more of it comes before the given offset. An
-- optional last part that is missing leaves what was skipped in search of it to the declaration.
def finish? (stage : Stage) (offset : Nat) : Option (List Declaration) :=
  match stage with
  | .opening | .settled => some []
  | .stateFlag start name => some [.state ⟨name, false, ⟨start, offset⟩⟩]
  | .guardWord start name source target =>
    some [.transition ⟨name, source, target, none, ⟨start, offset⟩⟩]
  | _ => none

def advance? (stage : Stage) (token : Token) : Option (List Declaration × Stage) :=
  let span := token.span
  match stage, token.lexeme with
  | .opening, .keyword .machine => some ([], .machineName span.start)
  | .machineName start, .name text =>
    some ([.machine ⟨⟨text, span⟩, ⟨start, span.stop⟩⟩], .settled)
  | .stateName start, .name text => some ([], .stateFlag start ⟨text, span⟩)
  | .stateFlag start name, .keyword .initial =>
    some ([.state ⟨name, true, ⟨start, span.stop⟩⟩], .settled)
  | .transitionName start, .name text => some ([], .sourceWord start ⟨text, span⟩)
  | .sourceWord start name, .keyword .source => some ([], .sourceName start name)
  | .sourceName start name, .name text => some ([], .targetWord start name ⟨text, span⟩)
  | .targetWord start name source, .keyword .target => some ([], .targetName start name source)
  | .targetName start name source, .name text =>
    some ([], .guardWord start name source ⟨text, span⟩)
  | .guardWord start name source target, .keyword .guard =>
    some ([], .guardText start name source target)
  | .guardText start name source target, .quoted content =>
    some ([.transition ⟨name, source, target, some content, ⟨start, span.stop⟩⟩], .settled)
  | _, .keyword .state => (stage.finish? span.start).map (·, .stateName span.start)
  | _, .keyword .transition => (stage.finish? span.start).map (·, .transitionName span.start)
  | _, _ => none

-- A document that goes wrong at its very first byte is expected as a whole.
def fault (stage : Stage) (offset : Nat) : Nat × List Expectation :=
  if stage = .opening ∧ offset = 0 then (offset, [.document]) else (offset, stage.expected)

end Stage

-- The declarations of the rest of a document, or the offset of the first token that does not fit
-- and what was expected there.
def readFrom (stage : Stage) : TokenStream → Except (Nat × List Expectation) (List Declaration)
  | .finished offset =>
    match stage.finish? offset with
    | some decls => .ok decls
    | none => .error (stage.fault offset)
  | .blocked offset => .error (stage.fault offset)
  | .token head rest =>
    match stage.advance? head with
    | some (decls, next) => (readFrom next rest).map (decls ++ ·)
    | none => .error (stage.fault head.span.start)

def Model.parse (text : String) : Except ParseError Model :=
  match readFrom .opening (TokenStream.ofText text) with
  | .ok decls => .ok (Model.ofDeclarations decls)
  | .error (offset, expected) => .error (ParseError.locate text offset expected)

end FsmWorkbench
