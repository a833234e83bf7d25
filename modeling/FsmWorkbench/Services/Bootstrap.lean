import FsmWorkbench.Container.Verify
import FsmWorkbench.Services.Extension

set_option autoImplicit false

namespace FsmWorkbench

inductive SetupError where
  | collaborator (name reason : String)
  | configuration (cause : ResolveError)
  deriving DecidableEq, Repr, Inhabited

def SetupError.message : SetupError → String
  | .collaborator name reason => s!"module '{name}' failed to provide its bindings: {reason}"
  | .configuration cause => s!"invalid service configuration: {cause.message}"

def collect : List ServiceModule → Except SetupError (List ServiceSet) × List Event
  | [] => (.ok [], [])
  | contributor :: rest =>
    match contributor.bindings with
    | .error reason => (.error (.collaborator contributor.name reason), [])
    | .ok bindings =>
      let set : ServiceSet := .ofList contributor.name bindings
      let (sets, events) := collect rest
      (sets.map (set :: ·), BindingSet.eventsOfList contributor.name bindings ++
        .contributed contributor.name set.size :: events)

structure Container where
  injector : Injector Service Workshop
  state : ContainerState Service Workshop

namespace Container

def ofSet (set : ServiceSet) (workshop : Workshop) (events : List Event) : Container :=
  let injector := set.build
  ⟨injector, .start workshop (events ++ [injector.builtEvent])⟩

def resolve (container : Container) (key : ServiceKey) :
    Except ResolveError (Instance Service) × Container :=
  let (result, state) := container.injector.resolve key container.state
  (result, { container with state })

def resolveSlot {α : Type} (container : Container) (slot : Slot α) :
    Except ResolveError α × Container :=
  let (result, later) := container.resolve slot.key
  (result.bind slot.value, later)

def verify (container : Container) : Except ResolveError Unit :=
  container.injector.verify

def shutdown (container : Container) : Container :=
  { container with state := Injector.shutdown container.state }

def setup (modules : List ServiceModule) (workshop : Workshop) :
    Except SetupError Container × List Event :=
  let (collected, events) := collect modules
  match collected with
  | .error error => (.error error, events)
  | .ok sets =>
    let container :=
      ofSet (BindingSet.mergeAll sets) workshop (events ++ BindingSet.mergeAllEvents sets)
    match container.verify with
    | .error cause => (.error (.configuration cause), container.state.events)
    | .ok _ =>
      let injector := container.injector
      let ready := container.state.record [.ready injector.name injector.size]
      (.ok { container with state := ready }, ready.events)

def standalone : Except SetupError Container :=
  (setup [.runtime] .start).1

def editor : Except SetupError Container :=
  (setup [.runtime, .editor] .start).1

end Container

end FsmWorkbench
