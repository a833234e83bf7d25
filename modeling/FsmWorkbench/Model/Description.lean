import FsmWorkbench.Json.Value
import FsmWorkbench.Language
import FsmWorkbench.Model.Basic

set_option autoImplicit false

namespace FsmWorkbench

namespace StateDecl

def describe (model : Model) (state : StateDecl) : Json :=
  .object
    [("name", .text state.name.text),
      ("initial", .bool state.initial),
      ("outgoing",
        .array ((model.outgoing state.name.text).map fun transition => .text transition.name.text))]

end StateDecl

namespace TransitionDecl

def describe (transition : TransitionDecl) : Json :=
  .object
    ([("name", .text transition.name.text),
      ("from", .text transition.source.text),
      ("to", .text transition.target.text)] ++
      (transition.guard.map fun guard => ("guard", .text guard)).toList)

end TransitionDecl

namespace Model

def describe (language : LanguageInfo) (model : Model) : Json :=
  .object
    [("language", .text language.languageId),
      ("version", .text language.version),
      ("machine", .ofOption (fun machine => .text machine.name.text) model.machine),
      ("initial", .ofOption (fun state => .text state.name.text) model.initialStates.head?),
      ("states", .array (model.states.map (·.describe model))),
      ("transitions", .array (model.transitions.map TransitionDecl.describe))]

end Model

end FsmWorkbench
