import FsmWorkbench.Proofs.Container.Clearance

set_option autoImplicit false

namespace FsmWorkbench

open Relation

variable {σ ω τ υ : Type}

namespace Injector

variable {injector : Injector σ ω} {other : Injector τ υ}

-- All that verifying reads of a binding.
def declared? (injector : Injector σ ω) (key : ServiceKey) : Option (List ServiceKey) :=
  (injector.binding? key).map Binding.dependencies

theorem verifyOn_eq (injector : Injector σ ω) (path : List ServiceKey) (key : ServiceKey)
    (verified : List ServiceKey) :
    injector.verifyOn path key verified =
      if key ∈ verified then .ok verified
      else if key ∈ path then .error (.cyclicDependency (path ++ [key]))
      else match injector.declared? key with
        | none => .error (.missingBinding key)
        | some dependencies =>
          (visitAll (injector.verifyOn (path ++ [key])) dependencies verified).map (key :: ·) := by
  rw [verifyOn, declared?]
  split
  · rfl
  split
  · rfl
  split
  · next unbound => simp [unbound]
  · next binding bound =>
    simp only [bound, Option.map_some]
    split <;> next visited => simp [visited, Except.map]

theorem verifyOn_of_declared (same : ∀ key, other.declared? key = injector.declared? key)
    (path : List ServiceKey) : other.verifyOn path = injector.verifyOn path := by
  induction path using path_induction injector with
  | step path ih =>
  funext key verified
  rw [verifyOn_eq, verifyOn_eq, same]
  split
  · rfl
  split
  · rfl
  next fresh =>
  split
  · rfl
  · next dependencies declared =>
    obtain ⟨binding, bound, -⟩ := Option.map_eq_some_iff.1 declared
    rw [ih key binding bound fresh]

-- The names bring the keys in order, so it is the names that have to tell them apart.
theorem mergeSort_keys_of_declared
    (named : (injector.bindings.keys.map ServiceKey.name).Nodup)
    (same : ∀ key, other.declared? key = injector.declared? key) :
    other.bindings.keys.mergeSort ServiceKey.le =
      injector.bindings.keys.mergeSort ServiceKey.le := by
  have bound (key : ServiceKey) : key ∈ other.bindings.keys ↔ key ∈ injector.bindings.keys := by
    have known := congrArg Option.isSome (same key)
    simp only [declared?, Option.isSome_map, binding?] at known
    rw [Table.mem_keys_iff, Table.mem_keys_iff, known]
  have keys : other.bindings.keys.Perm injector.bindings.keys :=
    (List.perm_ext_iff_of_nodup other.bindings.nodup injector.bindings.nodup).2 bound
  have sorted (keys : List ServiceKey) := List.pairwise_mergeSort ServiceKey.le_trans
    ServiceKey.le_total keys
  have antisymm (a b : ServiceKey) (left : a ∈ other.bindings.keys.mergeSort ServiceKey.le)
      (right : b ∈ injector.bindings.keys.mergeSort ServiceKey.le) (le : a.le b = true)
      (ge : b.le a = true) : a = b := by
    rw [List.mem_mergeSort] at left right
    exact List.inj_on_of_nodup_map named ((bound a).1 left) right (ServiceKey.name_eq_of_le le ge)
  apply List.Perm.eq_of_pairwise antisymm (sorted _) (sorted _)
  exact (List.mergeSort_perm ..).trans (keys.trans (List.mergeSort_perm ..).symm)

theorem verify_of_declared (named : (injector.bindings.keys.map ServiceKey.name).Nodup)
    (same : ∀ key, other.declared? key = injector.declared? key) :
    other.verify = injector.verify := by
  rw [verify, verify, mergeSort_keys_of_declared named same, verifyOn_of_declared same]

theorem verify_of_perm {set other : BindingSet σ ω}
    (named : (set.build.bindings.keys.map ServiceKey.name).Nodup)
    (same : other.bindings.entries.Perm set.bindings.entries) :
    other.build.verify = set.build.verify := by
  apply verify_of_declared named
  intro key
  exact congrArg (Option.map Binding.dependencies) (Table.get?_of_perm same key)

theorem isSome_binding?_iff {key : ServiceKey} :
    (injector.binding? key).isSome = true ↔ injector.contains key = true := by
  rw [binding?, Table.isSome_get?, contains]

theorem Depends.contains {key dependency : ServiceKey}
    (depends : injector.Depends key dependency) : injector.contains key = true := by
  obtain ⟨binding, bound, -⟩ := depends
  rw [← isSome_binding?_iff, bound]
  rfl

theorem Loop.contains {path : List ServiceKey} (loop : injector.Loop path) :
    ∀ key ∈ path.dropLast, injector.contains key = true := by
  intro key entered
  obtain ⟨last, -, ends⟩ := loop.returns
  obtain ⟨front, rfl⟩ := List.getLast?_eq_some_iff.1 ends
  rw [List.dropLast_concat] at entered
  obtain ⟨before, after, rfl⟩ := List.append_of_mem entered
  have chain := loop.chain
  rw [List.append_assoc, List.cons_append, List.isChain_split] at chain
  cases after with
  | nil => exact Depends.contains (List.isChain_pair.1 chain.2)
  | cons next after => exact Depends.contains (List.isChain_cons_cons.1 chain.2).1

theorem wired_all_iff :
    (∀ key, (injector.binding? key).isSome = true → injector.Wired key) ↔
      (∀ key dependency, injector.Depends key dependency → injector.contains dependency = true) ∧
        ∀ key, ¬TransGen injector.Depends key key := by
  constructor
  · intro wired
    have reached {key other : ServiceKey} (depends : injector.Depends key other) :=
      wired key (isSome_binding?_iff.2 depends.contains)
    refine ⟨fun key dependency depends => ?_, fun key cycle => ?_⟩
    · exact isSome_binding?_iff.1 (reached depends dependency (.single depends)).1
    · obtain ⟨next, depends, -⟩ := TransGen.head'_iff.1 cycle
      exact (reached depends key .refl).2 cycle
  · rintro ⟨closed, acyclic⟩ key bound other reaches
    refine ⟨?_, acyclic other⟩
    rcases reaches.cases_tail with rfl | ⟨last, -, depends⟩
    · exact bound
    · exact isSome_binding?_iff.2 (closed last other depends)

-- What is missing was not where the visit began, so something that is bound asks for it.
theorem Defect.exists_depends {key lost : ServiceKey} (bound : injector.contains key = true)
    (defect : injector.Defect [] key (.missingBinding lost)) :
    injector.contains lost = false ∧ ∃ asking, injector.Depends asking lost := by
  cases defect with
  | missing reaches unbound =>
    have absent : injector.contains lost = false := by
      rw [← Bool.not_eq_true, ← isSome_binding?_iff, unbound]
      exact Bool.false_ne_true
    refine ⟨absent, ?_⟩
    rcases reaches.cases_tail with rfl | ⟨asking, -, depends⟩
    · rw [bound] at absent
      cases absent
    · exact ⟨asking, depends⟩

theorem fault_of_verify {error : ResolveError} (failed : injector.verify = .error error) :
    (∃ lost asking, error = .missingBinding lost ∧ injector.contains lost = false ∧
        injector.contains asking = true ∧ injector.Depends asking lost) ∨
      ∃ path, error = .cyclicDependency path ∧ injector.Loop path ∧
        ∀ key ∈ path.dropLast, injector.contains key = true := by
  obtain ⟨key, bound, defect⟩ := exists_defect_of_verify failed
  cases error with
  | missingBinding lost =>
    obtain ⟨absent, asking, depends⟩ := defect.exists_depends (isSome_binding?_iff.1 bound)
    exact .inl ⟨lost, asking, rfl, absent, depends.contains, depends⟩
  | cyclicDependency path =>
    cases defect with
    | cyclic loop => exact .inr ⟨_, rfl, loop, loop.contains⟩
  | _ => cases defect

end Injector

def Event.ofServices : Event → Bool
  | .constructed _ _ | .released _ | .note _ => true
  | _ => false

def Quiet (events : List Event) : Prop :=
  ∀ event ∈ events, event.ofServices = false

theorem quiet_nil : Quiet [] := by
  simp [Quiet]

theorem Quiet.append {first second : List Event} (left : Quiet first) (right : Quiet second) :
    Quiet (first ++ second) := by
  intro event member
  rcases List.mem_append.1 member with member | member
  · exact left event member
  · exact right event member

theorem quiet_bindEvents (set : BindingSet σ ω) (key : ServiceKey) (binding : Binding σ ω) :
    Quiet (set.bindEvents key binding) := by
  rw [BindingSet.bindEvents]
  split <;> simp [Quiet, Event.ofServices]

theorem quiet_mergeEvents (base overrides : BindingSet σ ω) :
    Quiet (base.mergeEvents overrides) := by
  intro event member
  obtain ⟨entry, -, reported⟩ := List.mem_filterMap.1 member
  obtain ⟨binding, -, rfl⟩ := Option.map_eq_some_iff.1 reported
  rfl

-- A log that is kept along with something else while going through a list.
theorem quiet_foldl {α β : Type} {step : β × List Event → α → β × List Event}
    (adds : ∀ noted item, Quiet noted.2 → Quiet (step noted item).2) (items : List α)
    {noted : β × List Event} (quiet : Quiet noted.2) : Quiet (items.foldl step noted).2 := by
  induction items generalizing noted with
  | nil => exact quiet
  | cons item items ih => exact ih (adds noted item quiet)

theorem quiet_eventsOfList (name : String) (bindings : List (ServiceKey × Binding σ ω)) :
    Quiet (BindingSet.eventsOfList name bindings) := by
  rw [BindingSet.eventsOfList]
  apply quiet_foldl _ bindings quiet_nil
  intro noted entry quiet
  exact quiet.append (quiet_bindEvents noted.1 entry.1 entry.2)

theorem quiet_mergeAllEvents (sets : List (BindingSet σ ω)) :
    Quiet (BindingSet.mergeAllEvents sets) := by
  cases sets with
  | nil => exact quiet_nil
  | cons first rest =>
    rw [BindingSet.mergeAllEvents]
    apply quiet_foldl _ rest quiet_nil
    intro noted set quiet
    exact quiet.append (quiet_mergeEvents noted.1 set)

theorem quiet_collect (modules : List ServiceModule) : Quiet (collect modules).2 := by
  induction modules with
  | nil => exact quiet_nil
  | cons contributor rest ih =>
    rw [collect]
    split
    · exact quiet_nil
    · next bindings _ =>
      apply Quiet.append (quiet_eventsOfList contributor.name bindings)
      simpa [Quiet, Event.ofServices] using ih

theorem Container.quiet_setup (modules : List ServiceModule) (workshop : Workshop) :
    Quiet (Container.setup modules workshop).2 := by
  have collected := quiet_collect modules
  rw [Container.setup]
  dsimp only
  split
  · exact collected
  · next sets _ =>
    have merged := collected.append (quiet_mergeAllEvents sets)
    split <;>
      simpa [Quiet, Container.ofSet, ContainerState.start, ContainerState.record,
        Event.ofServices, Injector.builtEvent, or_imp, forall_and] using merged

theorem Container.state_of_setup {modules : List ServiceModule} {workshop : Workshop}
    {container : Container} {log : List Event}
    (done : Container.setup modules workshop = (.ok container, log)) :
    container.state = .start workshop log := by
  rw [Container.setup] at done
  dsimp only at done
  split at done
  · cases done
  · split at done
    · cases done
    · obtain ⟨same, rfl⟩ := Prod.mk.inj done
      obtain rfl := Except.ok.inj same
      rfl

namespace Injector

theorem verify_exact (set : BindingSet σ ω) :
    (set.build.verify = .ok () ↔
      (∀ key dependency, set.build.Depends key dependency →
          set.build.contains dependency = true) ∧
        ∀ key, ¬TransGen set.build.Depends key key) ∧
      (∀ error, set.build.verify = .error error →
        (∃ lost asking, error = .missingBinding lost ∧ set.build.contains lost = false ∧
          set.build.contains asking = true ∧ set.build.Depends asking lost) ∨
        ∃ path, error = .cyclicDependency path ∧ set.build.Loop path ∧
          ∀ key ∈ path.dropLast, set.build.contains key = true) ∧
      ((set.keys.map ServiceKey.name).Nodup →
        (∀ other : BindingSet σ ω, other.bindings.entries.Perm set.bindings.entries →
          other.build.verify = set.build.verify) ∧
        ∀ (τ υ : Type) (other : BindingSet τ υ),
          (∀ key, other.build.declared? key = set.build.declared? key) →
            other.build.verify = set.build.verify) ∧
      ∀ modules workshop, Quiet (Container.setup modules workshop).2 ∧
        ∀ container, (Container.setup modules workshop).1 = .ok container →
          container.state = .start workshop (Container.setup modules workshop).2 := by
  refine ⟨verify_eq_ok_iff.trans wired_all_iff, fun error => fault_of_verify,
    fun named => ⟨fun other => verify_of_perm named, fun τ υ other => verify_of_declared named⟩, ?_⟩
  intro modules workshop
  refine ⟨Container.quiet_setup modules workshop, fun container done => ?_⟩
  exact Container.state_of_setup (Prod.ext done rfl)

end Injector

end FsmWorkbench
