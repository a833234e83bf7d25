set_option autoImplicit false

namespace FsmWorkbench

structure Span where
  start : Nat
  stop : Nat
  deriving DecidableEq, Repr, Inhabited

namespace Span

def contains (span : Span) (offset : Nat) : Bool :=
  span.start ≤ offset && offset < span.stop

-- A cursor right behind the last byte touches the span too.
def touches (span : Span) (offset : Nat) : Bool :=
  span.start ≤ offset && offset ≤ span.stop

end Span

structure Name where
  text : String
  span : Span
  deriving DecidableEq, Repr, Inhabited

structure MachineDecl where
  name : Name
  span : Span
  deriving DecidableEq, Repr, Inhabited

structure StateDecl where
  name : Name
  initial : Bool
  span : Span
  deriving DecidableEq, Repr, Inhabited

structure TransitionDecl where
  name : Name
  source : Name
  target : Name
  guard : Option String
  span : Span
  deriving DecidableEq, Repr, Inhabited

structure Model where
  machine : Option MachineDecl
  states : List StateDecl
  transitions : List TransitionDecl
  deriving DecidableEq, Repr, Inhabited

namespace TransitionDecl

def endpoints (transition : TransitionDecl) : List Name :=
  [transition.source, transition.target]

end TransitionDecl

namespace Model

def state? (model : Model) (name : String) : Option StateDecl :=
  model.states.find? fun state => state.name.text == name

def transition? (model : Model) (name : String) : Option TransitionDecl :=
  model.transitions.find? fun transition => transition.name.text == name

def declares (model : Model) (name : String) : Bool :=
  model.states.any fun state => state.name.text == name

def initialStates (model : Model) : List StateDecl :=
  model.states.filter fun state => state.initial

def outgoing (model : Model) (name : String) : List TransitionDecl :=
  model.transitions.filter fun transition => transition.source.text == name

def incoming (model : Model) (name : String) : List TransitionDecl :=
  model.transitions.filter fun transition => transition.target.text == name

end Model

end FsmWorkbench
