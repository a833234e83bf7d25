import FsmWorkbench.Validation.Issue

set_option autoImplicit false

namespace FsmWorkbench

-- The names that stand earlier in the list or in `seen` already.
def repeated (seen : List String) : List Name → List Name
  | [] => []
  | name :: rest =>
    if name.text ∈ seen then name :: repeated seen rest
    else repeated (name.text :: seen) rest

namespace Model

def duplicateStates (model : Model) : List Issue :=
  (repeated [] (model.states.map StateDecl.name)).map fun name =>
    ⟨.duplicateState name.text, name.span⟩

def duplicateTransitions (model : Model) : List Issue :=
  (repeated [] (model.transitions.map TransitionDecl.name)).map fun name =>
    ⟨.duplicateTransition name.text, name.span⟩

def undefinedStates (model : Model) : List Issue :=
  ((model.transitions.flatMap TransitionDecl.endpoints).filter fun name =>
    !model.declares name.text).map fun name => ⟨.undefinedState name.text, name.span⟩

def headline? (model : Model) : Option Name :=
  match model.machine with
  | some machine => some machine.name
  | none => model.states.head?.map StateDecl.name

def initialIssues (model : Model) : List Issue :=
  match model.states, model.initialStates with
  | _ :: _, [] => model.headline?.toList.map fun name => ⟨.noInitialState, name.span⟩
  | _, extra => extra.tail.map fun state => ⟨.extraInitialState state.name.text, state.name.span⟩

def coreIssues (model : Model) : List Issue :=
  Issue.arrange (model.duplicateStates ++ model.duplicateTransitions ++ model.undefinedStates ++
    model.initialIssues)

end Model

end FsmWorkbench
