import FsmWorkbench.Container.BindingSet

set_option autoImplicit false

namespace FsmWorkbench

structure Injector (σ ω : Type) where
  name : String
  bindings : Table ServiceKey (Binding σ ω)

structure ContainerState (σ ω : Type) where
  cached : Table ServiceKey (Instance σ)
  -- The cached singletons in the order in which they were made.
  constructed : List ServiceKey
  made : Nat
  world : ω
  events : List Event

namespace ContainerState

variable {σ ω : Type}

def start (world : ω) (events : List Event) : ContainerState σ ω :=
  ⟨.empty, [], 0, world, events⟩

def record (state : ContainerState σ ω) (events : List Event) : ContainerState σ ω :=
  { state with events := state.events ++ events }

end ContainerState

-- Nothing is made when an injector is built.
def BindingSet.build {σ ω : Type} (set : BindingSet σ ω) : Injector σ ω :=
  ⟨set.name, set.bindings⟩

namespace Injector

variable {σ ω : Type}

def size (injector : Injector σ ω) : Nat :=
  injector.bindings.size

def builtEvent (injector : Injector σ ω) : Event :=
  .built injector.name injector.size

def contains (injector : Injector σ ω) (key : ServiceKey) : Bool :=
  injector.bindings.contains key

def binding? (injector : Injector σ ω) (key : ServiceKey) : Option (Binding σ ω) :=
  injector.bindings.get? key

def offPath (injector : Injector σ ω) (path : List ServiceKey) : List ServiceKey :=
  injector.bindings.keys.filter fun key => !path.contains key

theorem length_offPath_append_lt {injector : Injector σ ω} {path : List ServiceKey}
    {key : ServiceKey} {binding : Binding σ ω} (bound : injector.binding? key = some binding)
    (fresh : key ∉ path) :
    (injector.offPath (path ++ [key])).length < (injector.offPath path).length := by
  have member : key ∈ injector.bindings.keys := by
    have := injector.bindings.isSome_get? key
    simp_all [binding?, Table.contains]
  have narrower : injector.offPath (path ++ [key]) =
      (injector.offPath path).filter fun other => !(other == key) := by
    simp only [offPath, List.filter_filter]
    congr 1
    funext other
    by_cases h : other = key <;> simp [h]
  rw [narrower]
  exact List.length_filter_lt_length_iff_exists.2
    ⟨key, by simp [offPath, member, fresh], by simp⟩

def construct (make : Factory σ ω) (supplies : Supplies σ) (state : ContainerState σ ω) :
    Except ResolveError (Instance σ) × ContainerState σ ω :=
  let attempt := make supplies state.world
  let called := { state with world := attempt.world }.record (attempt.notes.map Event.note)
  match attempt.outcome with
  | .error error => (.error error, called)
  | .ok service =>
    (.ok ⟨.made called.made, service, supplies.handles⟩, { called with made := called.made + 1 })

def keep (key : ServiceKey) (binding : Binding σ ω) (made : Instance σ)
    (state : ContainerState σ ω) : ContainerState σ ω :=
  { state with
      cached := state.cached.put key made
      constructed := state.constructed ++ [key] }.record
    [.constructed key binding.implementation]

def kept? (scope : Scope) (key : ServiceKey) (state : ContainerState σ ω) : Option (Instance σ) :=
  if scope = .singleton then state.cached.get? key else none

-- Resolves keys from left to right up to the first error. Of a key that comes twice the later
-- instance counts.
def supplyAll
    (resolve : ServiceKey → ContainerState σ ω →
      Except ResolveError (Instance σ) × ContainerState σ ω) :
    List ServiceKey → Table ServiceKey (Instance σ) → ContainerState σ ω →
      Except ResolveError (Table ServiceKey (Instance σ)) × ContainerState σ ω
  | [], supplied, state => (.ok supplied, state)
  | key :: rest, supplied, state =>
    match resolve key state with
    | (.error error, next) => (.error error, next)
    | (.ok found, next) => supplyAll resolve rest (supplied.put key found) next

-- Resolves a key while the dependencies of the services on a path are being resolved.
def resolveOn (injector : Injector σ ω) (path : List ServiceKey) (key : ServiceKey)
    (state : ContainerState σ ω) : Except ResolveError (Instance σ) × ContainerState σ ω :=
  match _ : injector.binding? key with
  | none => (.error (.missingBinding key), state)
  | some binding =>
    match binding.provider with
    | .prebuilt service => (.ok ⟨.prebuilt key, service, []⟩, state)
    | .factory dependencies scope make =>
      match kept? scope key state with
      | some found => (.ok found, state)
      | none =>
        if _ : key ∈ path then (.error (.cyclicDependency (path ++ [key])), state)
        else
          match supplyAll (fun next => injector.resolveOn (path ++ [key]) next) dependencies .empty
              state with
          | (.error error, later) => (.error error, later)
          | (.ok supplied, later) =>
            -- The service may have been made while its dependencies were resolved.
            match kept? scope key later with
            | some found => (.ok found, later)
            | none =>
              match construct make ⟨key, supplied⟩ later with
              | (.error error, last) => (.error error, last)
              | (.ok made, last) =>
                (.ok made, if scope = .singleton then keep key binding made last else last)
termination_by (injector.offPath path).length
decreasing_by exact length_offPath_append_lt (by assumption) (by assumption)

def resolve (injector : Injector σ ω) (key : ServiceKey) (state : ContainerState σ ω) :
    Except ResolveError (Instance σ) × ContainerState σ ω :=
  injector.resolveOn [] key state

def release (state : ContainerState σ ω) (key : ServiceKey) : ContainerState σ ω :=
  if state.cached.contains key then
    { state with cached := state.cached.erase key }.record [.released key]
  else state

-- Lets the cached singletons go, the one made last first.
def shutdown (state : ContainerState σ ω) : ContainerState σ ω :=
  state.constructed.reverse.foldl release { state with constructed := [] }

end Injector

end FsmWorkbench
