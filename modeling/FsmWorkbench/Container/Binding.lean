import FsmWorkbench.Container.Event
import FsmWorkbench.Table

set_option autoImplicit false

namespace FsmWorkbench

inductive Scope where
  | singleton
  | transient
  deriving DecidableEq, Repr, Inhabited

-- Tells instances apart: the one that was there from the start, or the n-th one that was made.
inductive Handle where
  | prebuilt (key : ServiceKey)
  | made (number : Nat)
  deriving DecidableEq, Repr, Inhabited

structure Instance (σ : Type) where
  handle : Handle
  service : σ
  parts : List (ServiceKey × Handle)

structure Supplies (σ : Type) where
  requester : ServiceKey
  instances : Table ServiceKey (Instance σ)

namespace Supplies

variable {σ : Type}

def get (supplies : Supplies σ) (key : ServiceKey) : Except ResolveError (Instance σ) :=
  match supplies.instances.get? key with
  | some found => .ok found
  | none => .error (.undeclaredDependency supplies.requester key)

def handles (supplies : Supplies σ) : List (ServiceKey × Handle) :=
  supplies.instances.entries.map fun entry => (entry.1, entry.2.handle)

theorem get_eq_ok_iff {supplies : Supplies σ} {key : ServiceKey} {found : Instance σ} :
    supplies.get key = .ok found ↔ supplies.instances.get? key = some found := by
  unfold get
  split <;> simp_all

end Supplies

-- A call of a factory: what came out, what the factory keeps from now on, and what it noted.
structure Attempt (σ ω : Type) where
  outcome : Except ResolveError σ
  world : ω
  notes : List String

abbrev Factory (σ ω : Type) := Supplies σ → ω → Attempt σ ω

inductive Provider (σ ω : Type) where
  | prebuilt (service : σ)
  | factory (dependencies : List ServiceKey) (scope : Scope) (make : Factory σ ω)

structure Binding (σ ω : Type) where
  implementation : String
  provider : Provider σ ω

namespace Binding

variable {σ ω : Type}

def scope (binding : Binding σ ω) : Scope :=
  match binding.provider with
  | .prebuilt _ => .singleton
  | .factory _ scope _ => scope

def dependencies (binding : Binding σ ω) : List ServiceKey :=
  match binding.provider with
  | .prebuilt _ => []
  | .factory dependencies _ _ => dependencies

theorem dependencies_eq {binding : Binding σ ω} {dependencies : List ServiceKey} {scope : Scope}
    {make : Factory σ ω} (provider : binding.provider = .factory dependencies scope make) :
    binding.dependencies = dependencies := by
  rw [Binding.dependencies, provider]

end Binding

end FsmWorkbench
