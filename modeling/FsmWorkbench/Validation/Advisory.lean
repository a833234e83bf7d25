import FsmWorkbench.Validation.Core
import FsmWorkbench.Validation.Reachability

set_option autoImplicit false

namespace FsmWorkbench.Model

def missingMachine (model : Model) : List Issue :=
  if model.machine.isNone && !model.states.isEmpty then [⟨.missingMachine, ⟨0, 0⟩⟩] else []

-- Without an initial state nothing is reachable, and then nothing is reported either.
def unreachableStates (model : Model) : List Issue :=
  let reached := model.reachable
  if reached.isEmpty then []
  else
    (model.states.filter fun state => !reached.contains state.name.text).map fun state =>
      ⟨.unreachableState state.name.text, state.name.span⟩

def advise (model : Model) (issues : List Issue) : List Issue :=
  Issue.arrange (issues ++ model.missingMachine ++ model.unreachableStates)

def editorIssues (model : Model) : List Issue :=
  model.advise model.coreIssues

end FsmWorkbench.Model
