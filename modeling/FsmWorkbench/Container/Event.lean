import FsmWorkbench.Container.Key

set_option autoImplicit false

namespace FsmWorkbench

inductive Event where
  | registeredAgain (set : String) (key : ServiceKey) (implementation : String)
  | overrode (set : String) (key : ServiceKey) (old new : String)
  | built (name : String) (count : Nat)
  | constructed (key : ServiceKey) (implementation : String)
  | released (key : ServiceKey)
  | contributed (name : String) (count : Nat)
  | ready (name : String) (count : Nat)
  | note (text : String)
  deriving DecidableEq, Repr, Inhabited

def Event.render : Event → String
  | .registeredAgain set key implementation =>
    s!"warn: Binding set '{set}' registers {key.name} more than once; keeping {implementation}"
  | .overrode set key old new => s!"debug: {set} overrides {key.name}: {old} -> {new}"
  | .built name count => s!"debug: Built injector '{name}' with {count} binding(s)"
  | .constructed key implementation =>
    s!"debug: Constructed singleton {key.name} ({implementation})"
  | .released key => s!"debug: Released singleton {key.name}"
  | .contributed name count => s!"info: Module '{name}' contributed {count} binding(s)"
  | .ready name count => s!"info: Injector '{name}' ready with {count} binding(s)"
  | .note text => text

end FsmWorkbench
