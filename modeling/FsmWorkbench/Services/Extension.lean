import FsmWorkbench.Services.Modules

set_option autoImplicit false

namespace FsmWorkbench

structure Recipe where
  -- Recipes with one number share their count of calls.
  number : Nat
  key : ServiceKey
  label : String
  note : String
  asks : List ServiceKey
  failure : Option String
  -- How many calls fail; without a limit all do.
  failures : Option Nat
  deriving Repr, Inhabited

namespace Recipe

def ask (supplies : Supplies Service) (key : ServiceKey) :
    Except ResolveError (ServiceKey × Option Nat) :=
  (supplies.get key).map fun found =>
    match found.service with
    | .extension value => (key, some value.serial)
    | _ => (key, none)

def failureAfter? (recipe : Recipe) (calls : Nat) : Option String :=
  recipe.failure.filter fun _ =>
    match recipe.failures with
    | some limit => calls < limit
    | none => true

def follow (recipe : Recipe) : Factory Service Workshop := fun supplies workshop =>
  match recipe.asks.mapM (ask supplies) with
  | .error error => ⟨.error error, workshop, [recipe.note]⟩
  | .ok received =>
    let counted := workshop.countCall recipe.number
    match recipe.failureAfter? (workshop.callsOf recipe.number) with
    | some reason => ⟨.error (.construction recipe.key reason), counted, [recipe.note]⟩
    | none =>
      let (serial, later) := counted.takeSerial
      ⟨.ok (.extension ⟨recipe.key, serial, recipe.label, received⟩), later, [recipe.note]⟩

end Recipe

inductive BindingPlan where
  | prebuilt (key : ServiceKey) (label : String)
  | made (implementation : String) (dependencies : List ServiceKey) (scope : Scope)
    (recipe : Recipe)
  | lenient (implementation : String) (scope : Scope)
  deriving Inhabited

namespace BindingPlan

def realize (plan : BindingPlan) (workshop : Workshop) :
    (ServiceKey × ServiceBinding) × Workshop :=
  match plan with
  | .prebuilt key label =>
    let (serial, later) := workshop.takeSerial
    ((key, ⟨key.name, .prebuilt (.extension ⟨key, serial, label, []⟩)⟩), later)
  | .made implementation dependencies scope recipe =>
    ((recipe.key, ⟨implementation, .factory dependencies scope recipe.follow⟩), workshop)
  | .lenient implementation scope =>
    ((Slot.validator.key,
      ⟨implementation, .factory [] scope (Factory.simple fun _ => .ok (.validator .lenient))⟩),
      workshop)

def realizeAll : List BindingPlan → Workshop → List (ServiceKey × ServiceBinding) × Workshop
  | [], workshop => ([], workshop)
  | plan :: rest, workshop =>
    let (binding, later) := plan.realize workshop
    let (bindings, last) := realizeAll rest later
    (binding :: bindings, last)

end BindingPlan

end FsmWorkbench
