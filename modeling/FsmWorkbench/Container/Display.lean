import FsmWorkbench.Container.Injector
import FsmWorkbench.Text.Quoted

set_option autoImplicit false

namespace FsmWorkbench

def displayRecord (name : String) (fields : List (String × String)) : String :=
  name ++ " \x7b " ++ ", ".intercalate (fields.map fun (key, value) => key ++ ": " ++ value) ++
    " \x7d"

def ServiceKey.display (key : ServiceKey) : String :=
  s!"ServiceKey({key.name})"

def Scope.display : Scope → String
  | .singleton => "Singleton"
  | .transient => "Transient"

variable {σ ω : Type}

def Binding.display (key : ServiceKey) (binding : Binding σ ω) : String :=
  displayRecord "Binding"
    [("key", key.display),
      ("implementation", Text.quoted binding.implementation),
      ("scope", binding.scope.display),
      ("dependencies",
        "[" ++ ", ".intercalate (binding.dependencies.map ServiceKey.display) ++ "]")]

def Injector.display (injector : Injector σ ω) : String :=
  displayRecord "Injector"
    [("name", Text.quoted injector.name), ("bindings", toString injector.size)]

end FsmWorkbench
