import FsmWorkbench.Container.Injector

set_option autoImplicit false

namespace FsmWorkbench.Injector

variable {σ ω : Type}

def visitAll
    (visit : ServiceKey → List ServiceKey → Except ResolveError (List ServiceKey)) :
    List ServiceKey → List ServiceKey → Except ResolveError (List ServiceKey)
  | [], verified => .ok verified
  | key :: rest, verified =>
    match visit key verified with
    | .error error => .error error
    | .ok more => visitAll visit rest more

-- Visits a key from the end of a path of dependencies, and gives the keys verified by then.
def verifyOn (injector : Injector σ ω) (path : List ServiceKey) (key : ServiceKey)
    (verified : List ServiceKey) : Except ResolveError (List ServiceKey) :=
  if key ∈ verified then .ok verified
  else if _ : key ∈ path then .error (.cyclicDependency (path ++ [key]))
  else
    match _ : injector.binding? key with
    | none => .error (.missingBinding key)
    | some binding =>
      match visitAll (fun next => injector.verifyOn (path ++ [key]) next) binding.dependencies
          verified with
      | .error error => .error error
      | .ok more => .ok (key :: more)
termination_by (injector.offPath path).length
decreasing_by exact length_offPath_append_lt (by assumption) (by assumption)

def verify (injector : Injector σ ω) : Except ResolveError Unit :=
  (visitAll (injector.verifyOn []) (injector.bindings.keys.mergeSort ServiceKey.le) []).map
    fun _ => ()

end FsmWorkbench.Injector
