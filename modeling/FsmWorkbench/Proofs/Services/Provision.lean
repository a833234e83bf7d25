import FsmWorkbench.Proofs.Container.Clearance
import FsmWorkbench.Proofs.Services.Runtime

set_option autoImplicit false

namespace FsmWorkbench

open Injector

variable {α β : Type} {injector : Injector Service Workshop}

-- Whatever the bindings bring about in a slot is one and the same value, and they can.
structure Injector.Provides (injector : Injector Service Workshop) (slot : Slot α) (value : α) :
    Prop where
  wired : injector.Wired slot.key
  unique : ∀ offered, injector.Offers slot.key offered → slot.select offered = some value
  obliges : ∀ {binding dependencies scope make}, injector.binding? slot.key = some binding →
    binding.provider = .factory dependencies scope make →
    ∀ supplies world, injector.Serves slot.key dependencies supplies →
      ∃ service, (make supplies world).outcome = .ok service

namespace Injector.Provides

variable {slot : Slot α} {value : α} {binding : ServiceBinding}

theorem prebuilt {service : Service} (bound : injector.binding? slot.key = some binding)
    (provider : binding.provider = .prebuilt service)
    (selected : slot.select service = some value) : injector.Provides slot value where
  wired := by
    rw [wired_iff bound, Binding.dependencies, provider]
    intro dependency member
    cases member
  unique offered offers := by
    rw [eq_of_offers_prebuilt bound provider offers, selected]
  obliges other same := by
    obtain rfl := Option.some.inj (bound.symm.trans other)
    cases provider.symm.trans same

theorem simple {scope : Scope} {service : Service}
    (bound : injector.binding? slot.key = some binding)
    (provider : binding.provider = .factory [] scope (Factory.simple fun _ => .ok service))
    (selected : slot.select service = some value) : injector.Provides slot value where
  wired := by
    rw [wired_iff bound, Binding.dependencies, provider]
    intro dependency member
    cases member
  unique offered offers := by
    rw [eq_of_offers_simple bound provider offers, selected]
  obliges other same := by
    obtain rfl := Option.some.inj (bound.symm.trans other)
    cases provider.symm.trans same
    exact fun _ _ _ => ⟨service, rfl⟩

theorem derived {scope : Scope} {source : Slot β} {origin : β} {wrap : β → Service}
    (provided : injector.Provides source origin)
    (bound : injector.binding? slot.key = some binding)
    (provider : binding.provider = .factory [source.key] scope
      (Factory.simple fun supplies => (source.get supplies).map wrap))
    (selected : slot.select (wrap origin) = some value) : injector.Provides slot value where
  wired := by
    rw [wired_iff bound, Binding.dependencies, provider]
    intro dependency member
    obtain rfl := List.mem_singleton.1 member
    exact provided.wired
  unique offered offers := by
    cases offers with
    | prebuilt other same =>
      obtain rfl := Option.some.inj (bound.symm.trans other)
      cases provider.symm.trans same
    | @made _ _ _ _ _ supplies _ _ other same requester exact offered outcome =>
      obtain rfl := Option.some.inj (bound.symm.trans other)
      cases provider.symm.trans same
      have serves : injector.Serves slot.key [source.key] supplies := ⟨requester, exact, offered⟩
      have got := Slot.get_eq_ok serves List.mem_cons_self provided.unique
      have wrapped := (congrArg (Except.map wrap) got).symm.trans outcome
      rw [← Except.ok.inj wrapped, selected]
  obliges other same := by
    obtain rfl := Option.some.inj (bound.symm.trans other)
    cases provider.symm.trans same
    intro supplies world serves
    have got := Slot.get_eq_ok serves List.mem_cons_self provided.unique
    exact ⟨wrap origin, congrArg (Except.map wrap) got⟩

end Injector.Provides

structure Container.Runs (container : Container) (injector : Injector Service Workshop) : Prop where
  same : container.injector = injector
  obliging : injector.Obliging
  kept : injector.verdictDiscipline.keeps container.state

namespace Container.Runs

variable {container : Container}

theorem exists_resolveSlot (runs : container.Runs injector) {slot : Slot α} {value : α}
    (provided : injector.Provides slot value) :
    ∃ later, container.resolveSlot slot = (.ok value, later) ∧ later.Runs injector := by
  obtain ⟨rfl, obliging, kept⟩ := runs
  obtain ⟨found, resolved⟩ := (isOk_resolve_iff obliging kept slot.key).2 provided.wired
  have sound := (verdict_lawful container.injector).sound [] slot.key container.state kept
  have selected := provided.unique _ (sound.good found resolved).2
  refine ⟨(container.resolve slot.key).2, ?_, rfl, obliging, sound.keeps⟩
  rw [resolveSlot, resolve]
  dsimp only
  rw [resolved, Except.bind, Slot.value, selected]

end Container.Runs

def Injector.Furnished (injector : Injector Service Workshop) : Prop :=
  ∀ key binding, injector.binding? key = some binding →
    ∃ (α : Type) (slot : Slot α) (value : α), slot.key = key ∧ injector.Provides slot value

namespace Injector.Furnished

theorem obliging (furnished : injector.Furnished) : injector.Obliging := by
  intro key binding dependencies scope make bound provider
  obtain ⟨α, slot, value, rfl, provided⟩ := furnished key binding bound
  exact provided.obliges bound provider

theorem wired (furnished : injector.Furnished) {key : ServiceKey}
    (bound : (injector.binding? key).isSome = true) : injector.Wired key := by
  obtain ⟨binding, bound⟩ := Option.isSome_iff_exists.1 bound
  obtain ⟨α, slot, value, rfl, provided⟩ := furnished key binding bound
  exact provided.wired

end Injector.Furnished

theorem exists_setup_eq_ok {modules : List ServiceModule} {sets : List ServiceSet}
    {events : List Event} (collected : collect modules = (.ok sets, events))
    (furnished : (BindingSet.mergeAll sets).build.Furnished) (workshop : Workshop) :
    ∃ container log, Container.setup modules workshop = (.ok container, log) ∧
      container.Runs (BindingSet.mergeAll sets).build := by
  have verified := verify_eq_ok_iff.2 fun _ => furnished.wired
  rw [Container.setup, collected]
  dsimp only
  rw [Container.verify, Container.ofSet, verified]
  refine ⟨_, _, rfl, rfl, furnished.obliging, ?_⟩
  intro key found cached
  cases cached

structure Equipped (injector : Injector Service Workshop) (validator : Validator) : Prop where
  language : injector.Provides Slot.language .standard
  parser : injector.Provides Slot.parser .standard
  coreValidator : injector.Provides Slot.coreValidator .core
  validator : injector.Provides Slot.validator validator
  formatter : injector.Provides Slot.formatter (.layout .standard)
  generator : injector.Provides Slot.generator (.json .standard)

-- Modules on top of the runtime module may bind another validator, which may use the core rules.
theorem Equipped.of_bindings {validator : Validator}
    (language : injector.binding? Slot.language.key = some Bindings.language)
    (parser : injector.binding? Slot.parser.key = some Bindings.parser)
    (coreValidator : injector.binding? Slot.coreValidator.key = some Bindings.coreValidator)
    (formatter : injector.binding? Slot.formatter.key = some Bindings.formatter)
    (generator : injector.binding? Slot.generator.key = some Bindings.generator)
    (chosen : injector.Provides Slot.coreValidator .core →
      injector.Provides Slot.validator validator) : Equipped injector validator := by
  have info : injector.Provides Slot.language .standard := .prebuilt language rfl rfl
  have reader : injector.Provides Slot.parser .standard := .simple parser rfl rfl
  have core : injector.Provides Slot.coreValidator .core := .simple coreValidator rfl rfl
  exact ⟨info, reader, core, chosen core, reader.derived formatter rfl rfl,
    info.derived generator rfl rfl⟩

theorem runtime_equipped : Equipped runtimeSet.build .core :=
  .of_bindings rfl rfl rfl rfl rfl fun core => core.derived rfl rfl rfl

theorem runtime_furnished : runtimeSet.build.Furnished := by
  intro key binding bound
  have member := mem_of_binding? bound
  simp only [runtimeSet_entries, List.mem_cons, Prod.mk.injEq, List.not_mem_nil, or_false] at member
  rcases member with ⟨rfl, -⟩ | ⟨rfl, -⟩ | ⟨rfl, -⟩ | ⟨rfl, -⟩ | ⟨rfl, -⟩ | ⟨rfl, -⟩
  · exact ⟨_, _, _, rfl, runtime_equipped.language⟩
  · exact ⟨_, _, _, rfl, runtime_equipped.parser⟩
  · exact ⟨_, _, _, rfl, runtime_equipped.coreValidator⟩
  · exact ⟨_, _, _, rfl, runtime_equipped.validator⟩
  · exact ⟨_, _, _, rfl, runtime_equipped.formatter⟩
  · exact ⟨_, _, _, rfl, runtime_equipped.generator⟩

theorem exists_standalone_eq_ok :
    ∃ container, Container.standalone = .ok container ∧ container.Runs runtimeSet.build := by
  have collected : collect [.runtime] = (.ok [runtimeSet], _) := rfl
  obtain ⟨container, log, done, runs⟩ := exists_setup_eq_ok collected runtime_furnished .start
  exact ⟨container, by rw [Container.standalone, done], runs⟩

def editorAdditions : ServiceSet :=
  match ServiceModule.editor.bindings with
  | .ok bindings => .ofList ServiceModule.editor.name bindings
  | .error _ => .empty ServiceModule.editor.name

def editorSet : ServiceSet :=
  .mergeAll [runtimeSet, editorAdditions]

theorem editorSet_entries : editorSet.bindings.entries =
    [(Slot.language.key, Bindings.language),
      (Slot.parser.key, Bindings.parser),
      (Slot.coreValidator.key, Bindings.coreValidator),
      (Slot.validator.key, Bindings.editorValidator),
      (Slot.formatter.key, Bindings.formatter),
      (Slot.generator.key, Bindings.generator),
      (Slot.documents.key, Bindings.documents),
      (Slot.completion.key, Bindings.completion),
      (Slot.hover.key, Bindings.hover)] :=
  rfl

theorem editor_equipped : Equipped editorSet.build (.advising .core) :=
  .of_bindings rfl rfl rfl rfl rfl fun core => core.derived rfl rfl rfl

theorem editor_documents : editorSet.build.Provides Slot.documents (.empty .standard) :=
  .derived editor_equipped.parser rfl rfl rfl

theorem editor_completion : editorSet.build.Provides Slot.completion .keywords :=
  .simple rfl rfl rfl

theorem editor_hover : editorSet.build.Provides Slot.hover (.declarations .standard) :=
  .derived editor_equipped.language rfl rfl rfl

theorem editor_furnished : editorSet.build.Furnished := by
  intro key binding bound
  have member := mem_of_binding? bound
  simp only [editorSet_entries, List.mem_cons, Prod.mk.injEq, List.not_mem_nil, or_false] at member
  rcases member with ⟨rfl, -⟩ | ⟨rfl, -⟩ | ⟨rfl, -⟩ | ⟨rfl, -⟩ | ⟨rfl, -⟩ | ⟨rfl, -⟩ | ⟨rfl, -⟩ |
    ⟨rfl, -⟩ | ⟨rfl, -⟩
  · exact ⟨_, _, _, rfl, editor_equipped.language⟩
  · exact ⟨_, _, _, rfl, editor_equipped.parser⟩
  · exact ⟨_, _, _, rfl, editor_equipped.coreValidator⟩
  · exact ⟨_, _, _, rfl, editor_equipped.validator⟩
  · exact ⟨_, _, _, rfl, editor_equipped.formatter⟩
  · exact ⟨_, _, _, rfl, editor_equipped.generator⟩
  · exact ⟨_, _, _, rfl, editor_documents⟩
  · exact ⟨_, _, _, rfl, editor_completion⟩
  · exact ⟨_, _, _, rfl, editor_hover⟩

theorem exists_editor_eq_ok :
    ∃ container, Container.editor = .ok container ∧ container.Runs editorSet.build := by
  have collected : collect [.runtime, .editor] = (.ok [runtimeSet, editorAdditions], _) := rfl
  obtain ⟨container, log, done, runs⟩ := exists_setup_eq_ok collected editor_furnished .start
  exact ⟨container, by rw [Container.editor, done], runs⟩

end FsmWorkbench
