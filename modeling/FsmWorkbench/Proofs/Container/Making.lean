import FsmWorkbench.Proofs.Container.Verdict

set_option autoImplicit false

namespace FsmWorkbench.Injector

open Relation

variable {σ ω : Type}

/-- An object was made as bindings say, and so were all its parts: it was there from the start, or
the factory of its key made it out of such objects for exactly its declared dependencies. -/
inductive Built (chosen : ServiceKey → Option (Binding σ ω)) : ServiceKey → Instance σ → Prop where
  | prebuilt {key : ServiceKey} {binding : Binding σ ω} {service : σ}
      (bound : chosen key = some binding) (provider : binding.provider = .prebuilt service) :
      Built chosen key ⟨.prebuilt key, service, []⟩
  | made {key : ServiceKey} {binding : Binding σ ω} {dependencies : List ServiceKey}
      {scope : Scope} {make : Factory σ ω} {supplied : Table ServiceKey (Instance σ)} {world : ω}
      {service : σ} {number : Nat} (bound : chosen key = some binding)
      (provider : binding.provider = .factory dependencies scope make)
      (exact : ∀ other, (supplied.get? other).isSome = true ↔ other ∈ dependencies)
      (parts : ∀ other part, supplied.get? other = some part → Built chosen other part)
      (outcome : (make ⟨key, supplied⟩ world).outcome = .ok service) :
      Built chosen key ⟨.made number, service, Supplies.handles ⟨key, supplied⟩⟩

def Asks (chosen : ServiceKey → Option (Binding σ ω)) (key dependency : ServiceKey) : Prop :=
  ∃ binding, chosen key = some binding ∧ dependency ∈ binding.dependencies

/-- Among all that a key needs, itself included, there is a factory that fails with an error, though
it is handed such objects for its dependencies. -/
def Fails (chosen : ServiceKey → Option (Binding σ ω)) (key : ServiceKey) (error : ResolveError) :
    Prop :=
  ∃ needed binding dependencies scope make supplied world,
    ReflTransGen (Asks chosen) key needed ∧ chosen needed = some binding ∧
      binding.provider = .factory dependencies scope make ∧
      (∀ other, (supplied.get? other).isSome = true ↔ other ∈ dependencies) ∧
      (∀ other part, supplied.get? other = some part → Built chosen other part) ∧
      (make ⟨needed, supplied⟩ world).outcome = .error error

variable {injector : Injector σ ω} {key : ServiceKey}

def building (injector : Injector σ ω) : Discipline σ ω :=
  .always (Built injector.binding?)

section Construct

variable {binding : Binding σ ω} {dependencies : List ServiceKey} {scope : Scope}
  {make : Factory σ ω} {supplied : Table ServiceKey (Instance σ)} {later last : ContainerState σ ω}

theorem built_of_construct (bound : injector.binding? key = some binding)
    (provider : binding.provider = .factory dependencies scope make)
    (fits : injector.building.Fits dependencies supplied later) {made : Instance σ}
    (call : construct make ⟨key, supplied⟩ later = (.ok made, last)) :
    Built injector.binding? key made := by
  rw [eq_of_construct call]
  exact .made bound provider fits.exact fits.good (outcome_of_construct call)

end Construct

theorem building_lawful (injector : Injector σ ω) : injector.building.Lawful injector :=
  Discipline.always_lawful (fun bound provider => .prebuilt bound provider)
    (fun bound provider fits call => built_of_construct bound provider fits call)

theorem building_after (injector : Injector σ ω) (world : ω) (events : List Event)
    (history : List Operation) :
    injector.building.keeps (injector.after (.start world events) history) :=
  Discipline.always_after (building_lawful injector) world events history

theorem built_or_fails (wired : injector.Wired key) {state : ContainerState σ ω}
    (built : injector.building.keeps state) :
    (∃ found, (injector.resolve key state).1 = .ok found ∧ Built injector.binding? key found) ∨
      ∃ error, (injector.resolve key state).1 = .error error ∧
        Fails injector.binding? key error := by
  cases outcome : (injector.resolve key state).1 with
  | ok found =>
    have sound := (building_lawful injector).sound [] key state built
    exact .inl ⟨found, rfl, sound.good found outcome⟩
  | error error =>
    refine .inr ⟨error, rfl, ?_⟩
    rcases blame_of_resolveOn (building_lawful injector) [] key state built List.nodup_nil
      (List.isChain_singleton key) error outcome with
      defect | ⟨_, _, _, _, _, _, _, _, reaches, bound, provider, fits, call⟩
    · exact absurd wired defect.not_wired
    · exact ⟨_, _, _, _, _, _, _, reaches, bound, provider, fits.exact, fits.good,
        error_of_construct call⟩

end FsmWorkbench.Injector
