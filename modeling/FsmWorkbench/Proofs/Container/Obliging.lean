import FsmWorkbench.Container.Injector

set_option autoImplicit false

namespace FsmWorkbench.Injector

variable {σ ω : Type}

/-- The services that bindings can bring about under a key: prebuilt ones, and what factories make
out of such services for exactly their declared dependencies. -/
inductive Offers (injector : Injector σ ω) : ServiceKey → σ → Prop where
  | prebuilt {key : ServiceKey} {binding : Binding σ ω} {service : σ}
      (bound : injector.binding? key = some binding)
      (provider : binding.provider = .prebuilt service) : Offers injector key service
  | made {key : ServiceKey} {binding : Binding σ ω} {dependencies : List ServiceKey}
      {scope : Scope} {make : Factory σ ω} {supplies : Supplies σ} {world : ω} {service : σ}
      (bound : injector.binding? key = some binding)
      (provider : binding.provider = .factory dependencies scope make)
      (requester : supplies.requester = key)
      (exact : ∀ other, (supplies.instances.get? other).isSome = true ↔ other ∈ dependencies)
      (offered : ∀ other found, supplies.instances.get? other = some found →
        Offers injector other found.service)
      (outcome : (make supplies world).outcome = .ok service) : Offers injector key service

structure Serves (injector : Injector σ ω) (key : ServiceKey) (dependencies : List ServiceKey)
    (supplies : Supplies σ) : Prop where
  requester : supplies.requester = key
  exact : ∀ other, (supplies.instances.get? other).isSome = true ↔ other ∈ dependencies
  offered : ∀ other found, supplies.instances.get? other = some found →
    injector.Offers other found.service

/-- Factories that are handed their declared dependencies, and nothing else, succeed. -/
def Obliging (injector : Injector σ ω) : Prop :=
  ∀ {key binding dependencies scope make}, injector.binding? key = some binding →
    binding.provider = .factory dependencies scope make →
    ∀ supplies world, injector.Serves key dependencies supplies →
      ∃ service, (make supplies world).outcome = .ok service

end FsmWorkbench.Injector
