set_option autoImplicit false

namespace FsmWorkbench

-- Types of one name are different types: two versions of a library may both declare it.
structure TypeId where
  name : String
  serial : Nat
  deriving DecidableEq, Repr, Inhabited

instance : Coe String TypeId :=
  ⟨fun name => ⟨name, 0⟩⟩

-- Keys are told apart by their types; names are there for messages and for the order of verifying.
structure ServiceKey where
  id : TypeId
  deriving DecidableEq, Repr, Inhabited

namespace ServiceKey

def name (key : ServiceKey) : String :=
  key.id.name

def le (a b : ServiceKey) : Bool :=
  a.name ≤ b.name

theorem le_trans (a b c : ServiceKey) : a.le b → b.le c → a.le c := by
  simpa [le] using String.le_trans

theorem le_total (a b : ServiceKey) : (a.le b || b.le a) = true := by
  simpa [le] using String.le_total ..

theorem name_eq_of_le {a b : ServiceKey} (le : a.le b = true) (ge : b.le a = true) :
    a.name = b.name := by
  simp only [ServiceKey.le, decide_eq_true_eq] at le ge
  exact String.le_antisymm le ge

end ServiceKey

inductive ResolveError where
  | missingBinding (key : ServiceKey)
  | cyclicDependency (path : List ServiceKey)
  | undeclaredDependency (service dependency : ServiceKey)
  | construction (service : ServiceKey) (reason : String)
  | typeMismatch (key : ServiceKey)
  deriving DecidableEq, Repr, Inhabited

namespace ResolveError

def message : ResolveError → String
  | .missingBinding key => s!"no binding registered for `{key.name}`"
  | .cyclicDependency path =>
    "cyclic dependency: " ++ " -> ".intercalate (path.map ServiceKey.name)
  | .undeclaredDependency service dependency =>
    s!"`{service.name}` requested `{dependency.name}` without declaring it as a dependency"
  | .construction service reason => s!"failed to construct `{service.name}`: {reason}"
  | .typeMismatch key => s!"binding for `{key.name}` produced a value of another type"

def service? : ResolveError → Option ServiceKey
  | .missingBinding key | .typeMismatch key => some key
  | .cyclicDependency path => path.head?
  | .undeclaredDependency service _ | .construction service _ => some service

end ResolveError

end FsmWorkbench
