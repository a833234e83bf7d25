import FsmWorkbench.Proofs.Container.Graph
import FsmWorkbench.Proofs.Container.Obliging
import FsmWorkbench.Services.Bootstrap

set_option autoImplicit false

namespace FsmWorkbench

def runtimeSet : ServiceSet :=
  match ServiceModule.runtime.bindings with
  | .ok bindings => .ofList ServiceModule.runtime.name bindings
  | .error _ => .empty ServiceModule.runtime.name

theorem runtimeSet_entries : runtimeSet.bindings.entries =
    [(Slot.language.key, Bindings.language),
      (Slot.parser.key, Bindings.parser),
      (Slot.coreValidator.key, Bindings.coreValidator),
      (Slot.validator.key, Bindings.validator),
      (Slot.formatter.key, Bindings.formatter),
      (Slot.generator.key, Bindings.generator)] :=
  rfl

theorem mem_of_binding? {set : ServiceSet} {key : ServiceKey} {binding : ServiceBinding}
    (bound : set.build.binding? key = some binding) : (key, binding) ∈ set.bindings.entries := by
  obtain ⟨before, after, split, -⟩ := List.lookup_eq_some_iff.1 bound
  have entries : set.bindings.entries = before ++ (key, binding) :: after := split
  rw [entries]
  exact List.mem_append_right before List.mem_cons_self

section Offered

variable {injector : Injector Service Workshop} {key : ServiceKey} {binding : ServiceBinding}
  {service offered : Service}

theorem eq_of_offers_prebuilt (bound : injector.binding? key = some binding)
    (provider : binding.provider = .prebuilt service) (offers : injector.Offers key offered) :
    offered = service := by
  cases offers with
  | prebuilt other same =>
    obtain rfl := Option.some.inj (bound.symm.trans other)
    exact (Provider.prebuilt.inj (provider.symm.trans same)).symm
  | made other same =>
    obtain rfl := Option.some.inj (bound.symm.trans other)
    cases provider.symm.trans same

-- A factory that needs nothing and never fails offers one service only.
theorem eq_of_offers_simple {scope : Scope} (bound : injector.binding? key = some binding)
    (provider : binding.provider = .factory [] scope (Factory.simple fun _ => .ok service))
    (offers : injector.Offers key offered) : offered = service := by
  cases offers with
  | prebuilt other same =>
    obtain rfl := Option.some.inj (bound.symm.trans other)
    cases provider.symm.trans same
  | made other same _ _ _ outcome =>
    obtain rfl := Option.some.inj (bound.symm.trans other)
    cases provider.symm.trans same
    exact (Except.ok.inj outcome).symm

theorem Slot.get_eq_ok {α : Type} {slot : Slot α} {value : α} {supplies : Supplies Service}
    {dependencies : List ServiceKey} (serves : injector.Serves key dependencies supplies)
    (declared : slot.key ∈ dependencies)
    (only : ∀ offered, injector.Offers slot.key offered → slot.select offered = some value) :
    slot.get supplies = .ok value := by
  obtain ⟨found, known⟩ := Option.isSome_iff_exists.1 ((serves.exact _).2 declared)
  have selected := only _ (serves.offered _ _ known)
  rw [Slot.get, Supplies.get_eq_ok_iff.2 known, Except.bind, Slot.value, selected]

end Offered

theorem runtime_obliging : runtimeSet.build.Obliging := by
  have language (offered) (offers : runtimeSet.build.Offers Slot.language.key offered) :
      Slot.language.select offered = some .standard := by
    rw [eq_of_offers_prebuilt rfl rfl offers]
    rfl
  have parser (offered) (offers : runtimeSet.build.Offers Slot.parser.key offered) :
      Slot.parser.select offered = some .standard := by
    rw [eq_of_offers_simple rfl rfl offers]
    rfl
  have core (offered) (offers : runtimeSet.build.Offers Slot.coreValidator.key offered) :
      Slot.coreValidator.select offered = some .core := by
    rw [eq_of_offers_simple rfl rfl offers]
    rfl
  intro key binding dependencies scope make bound provider supplies world serves
  have member := mem_of_binding? bound
  simp only [runtimeSet_entries, List.mem_cons, Prod.mk.injEq, List.not_mem_nil, or_false] at member
  rcases member with ⟨rfl, rfl⟩ | ⟨rfl, rfl⟩ | ⟨rfl, rfl⟩ | ⟨rfl, rfl⟩ | ⟨rfl, rfl⟩ | ⟨rfl, rfl⟩
  · cases provider
  · cases provider
    exact ⟨_, rfl⟩
  · cases provider
    exact ⟨_, rfl⟩
  · cases provider
    have got := Slot.get_eq_ok serves List.mem_cons_self core
    exact ⟨_, congrArg (·.map Service.validator) got⟩
  · cases provider
    have got := Slot.get_eq_ok serves List.mem_cons_self parser
    exact ⟨_, congrArg (·.map fun parser => Service.formatter (.layout parser)) got⟩
  · cases provider
    have got := Slot.get_eq_ok serves List.mem_cons_self language
    exact ⟨_, congrArg (·.map fun info => Service.generator (.json info)) got⟩

theorem runtime_wired_validator : runtimeSet.build.Wired Slot.validator.key := by
  have validator : runtimeSet.build.binding? Slot.validator.key = some Bindings.validator := rfl
  have core : runtimeSet.build.binding? Slot.coreValidator.key = some Bindings.coreValidator := rfl
  rw [Injector.wired_iff validator]
  intro dependency member
  obtain rfl := List.mem_singleton.1 member
  rw [Injector.wired_iff core]
  intro dependency member
  cases member

end FsmWorkbench
