import FsmWorkbench.Proofs.Container.Bookkeeping

set_option autoImplicit false

namespace FsmWorkbench

variable {σ ω β : Type}

def Attempt.unwatched (attempt : Attempt σ (ω × β)) : Attempt σ ω :=
  ⟨attempt.outcome, attempt.world.1, attempt.notes⟩

abbrev Watch (σ ω β : Type) := ServiceKey → Factory σ ω → Factory σ (ω × β)

def Watch.Unobtrusive (watch : Watch σ ω β) : Prop :=
  ∀ key make supplies world, (watch key make supplies world).unwatched = make supplies world.1

def Provider.watched (watch : Factory σ ω → Factory σ (ω × β)) :
    Provider σ ω → Provider σ (ω × β)
  | .prebuilt service => .prebuilt service
  | .factory dependencies scope make => .factory dependencies scope (watch make)

def Binding.watched (watch : Factory σ ω → Factory σ (ω × β)) (binding : Binding σ ω) :
    Binding σ (ω × β) :=
  ⟨binding.implementation, binding.provider.watched watch⟩

def ContainerState.unwatched (state : ContainerState σ (ω × β)) : ContainerState σ ω :=
  ⟨state.cached, state.constructed, state.made, state.world.1, state.events⟩

theorem Provider.eq_prebuilt_of_watched {watch : Factory σ ω → Factory σ (ω × β)}
    {provider : Provider σ ω} {service : σ} (watched : provider.watched watch = .prebuilt service) :
    provider = .prebuilt service := by
  cases provider with
  | prebuilt other =>
    obtain rfl := Provider.prebuilt.inj watched
    rfl
  | factory => cases watched

theorem Provider.exists_of_watched {watch : Factory σ ω → Factory σ (ω × β)}
    {provider : Provider σ ω} {dependencies : List ServiceKey} {scope : Scope}
    {seen : Factory σ (ω × β)}
    (watched : provider.watched watch = .factory dependencies scope seen) :
    ∃ make, provider = .factory dependencies scope make ∧ seen = watch make := by
  cases provider with
  | prebuilt => cases watched
  | factory others scope make =>
    obtain ⟨rfl, rfl, rfl⟩ := Provider.factory.inj watched
    exact ⟨make, rfl, rfl⟩

namespace Injector

def watched (watch : Watch σ ω β) (injector : Injector σ ω) : Injector σ (ω × β) where
  name := injector.name
  bindings.entries := injector.bindings.entries.map fun entry =>
    (entry.1, entry.2.watched (watch entry.1))
  bindings.nodup := by
    rw [List.map_map]
    exact injector.bindings.nodup

variable {watch : Watch σ ω β} {injector : Injector σ ω} {key : ServiceKey}

theorem binding?_watched (watch : Watch σ ω β) (injector : Injector σ ω) (key : ServiceKey) :
    (injector.watched watch).binding? key =
      (injector.binding? key).map (Binding.watched (watch key)) := by
  change (injector.bindings.entries.map
    fun entry => (entry.1, entry.2.watched (watch entry.1))).lookup key =
      (injector.bindings.entries.lookup key).map (Binding.watched (watch key))
  induction injector.bindings.entries with
  | nil => rfl
  | cons entry rest ih =>
    obtain ⟨first, binding⟩ := entry
    by_cases same : key = first
    · subst same
      simp
    · simp [List.lookup_cons, beq_false_of_ne same, ih]

theorem exists_of_watched {binding : Binding σ (ω × β)}
    (bound : (injector.watched watch).binding? key = some binding) :
    ∃ plain, injector.binding? key = some plain ∧ plain.watched (watch key) = binding := by
  rw [binding?_watched] at bound
  exact Option.map_eq_some_iff.1 bound

theorem exists_factory_of_watched {binding : Binding σ (ω × β)} {dependencies : List ServiceKey}
    {scope : Scope} {seen : Factory σ (ω × β)}
    (bound : (injector.watched watch).binding? key = some binding)
    (provider : binding.provider = .factory dependencies scope seen) :
    ∃ plain make, injector.binding? key = some plain ∧
      plain.provider = .factory dependencies scope make ∧ seen = watch key make := by
  obtain ⟨plain, known, rfl⟩ := exists_of_watched bound
  obtain ⟨make, made, same⟩ := Provider.exists_of_watched provider
  exact ⟨plain, make, known, made, same⟩

theorem isSingleton_watched (watch : Watch σ ω β) (injector : Injector σ ω) (key : ServiceKey) :
    (injector.watched watch).isSingleton key = injector.isSingleton key := by
  rw [isSingleton, isSingleton, binding?_watched]
  cases injector.binding? key with
  | none => rfl
  | some binding =>
    obtain ⟨implementation, provider⟩ := binding
    cases provider with
    | prebuilt => rfl
    | factory _ scope => cases scope <;> rfl

abbrev Result.unwatched (result : Result σ (ω × β)) : Result σ ω :=
  (result.1, result.2.unwatched)

theorem construct_watched (unobtrusive : watch.Unobtrusive) (make : Factory σ ω)
    (supplies : Supplies σ) (state : ContainerState σ (ω × β)) :
    construct make supplies state.unwatched =
      Result.unwatched (construct (watch key make) supplies state) := by
  have same := unobtrusive key make supplies state.world
  rw [construct, construct]
  dsimp only [ContainerState.unwatched]
  rw [← same]
  dsimp only [Attempt.unwatched]
  cases (watch key make supplies state.world).outcome <;> rfl

theorem supplyAll_unwatched {plain : ServiceKey → ContainerState σ ω → Result σ ω}
    {watching : ServiceKey → ContainerState σ (ω × β) → Result σ (ω × β)}
    (same : ∀ key state, plain key state.unwatched = (watching key state).unwatched)
    (keys : List ServiceKey) (supplied : Table ServiceKey (Instance σ))
    (state : ContainerState σ (ω × β)) :
    supplyAll plain keys supplied state.unwatched =
      Prod.map id ContainerState.unwatched (supplyAll watching keys supplied state) := by
  induction keys generalizing supplied state with
  | nil => rfl
  | cons key keys ih =>
    rw [supplyAll, supplyAll, same]
    rcases watching key state with ⟨_ | found, next⟩
    · rfl
    · exact ih (supplied.put key found) next

theorem Needs.of_watched {path : List ServiceKey} {state : ContainerState σ (ω × β)}
    {binding : Binding σ (ω × β)} {dependencies : List ServiceKey} {scope : Scope}
    {seen : Factory σ (ω × β)}
    (needs : Needs (injector.watched watch) path key state binding dependencies scope seen) :
    ∃ plain make, binding = plain.watched (watch key) ∧ seen = watch key make ∧
      Needs injector path key state.unwatched plain dependencies scope make := by
  obtain ⟨plain, known, rfl⟩ := exists_of_watched needs.bound
  obtain ⟨make, provider, rfl⟩ := Provider.exists_of_watched needs.provider
  exact ⟨plain, make, rfl, rfl, known, provider, needs.unkept, needs.fresh⟩

theorem resolveOn_unwatched (unobtrusive : watch.Unobtrusive) (injector : Injector σ ω)
    (path : List ServiceKey) :
    ∀ key state, injector.resolveOn path key state.unwatched =
      Result.unwatched ((injector.watched watch).resolveOn path key state) := by
  induction path using path_induction (injector.watched watch) with
  | step path ih =>
  intro key state
  apply Step.resolveOn_eq
  have step := (injector.watched watch).resolveOn_step path key state
  generalize (injector.watched watch).resolveOn path key state = result at step
  have supply {binding dependencies scope seen result}
      (needs : Needs (injector.watched watch) path key state binding dependencies scope seen)
      (supply : supplyAll (fun next => (injector.watched watch).resolveOn (path ++ [key]) next)
        dependencies .empty state = result) :
      supplyAll (fun next => injector.resolveOn (path ++ [key]) next) dependencies .empty
        state.unwatched = Prod.map id ContainerState.unwatched result := by
    rw [← supply]
    exact supplyAll_unwatched (ih key binding needs.bound needs.fresh) dependencies .empty state
  cases step with
  | missing unbound =>
    rw [binding?_watched, Option.map_eq_none_iff] at unbound
    exact .missing unbound
  | prebuilt bound provider =>
    obtain ⟨plain, known, rfl⟩ := exists_of_watched bound
    exact .prebuilt known (Provider.eq_prebuilt_of_watched provider)
  | kept bound provider cached =>
    obtain ⟨plain, known, rfl⟩ := exists_of_watched bound
    obtain ⟨make, provided, rfl⟩ := Provider.exists_of_watched provider
    exact .kept known provided cached
  | cyclic bound provider unkept entered =>
    obtain ⟨plain, known, rfl⟩ := exists_of_watched bound
    obtain ⟨make, provided, rfl⟩ := Provider.exists_of_watched provider
    exact .cyclic known provided unkept entered
  | unsupplied needs supplied =>
    obtain ⟨plain, make, rfl, rfl, needed⟩ := needs.of_watched
    exact .unsupplied needed (supply needs supplied)
  | met needs supplied cached =>
    obtain ⟨plain, make, rfl, rfl, needed⟩ := needs.of_watched
    exact .met needed (supply needs supplied) cached
  | refused needs supplied unmet call =>
    obtain ⟨plain, make, rfl, rfl, needed⟩ := needs.of_watched
    refine .refused needed (supply needs supplied) unmet ?_
    exact (construct_watched unobtrusive ..).trans (congrArg Result.unwatched call)
  | handed needs supplied call =>
    obtain ⟨plain, make, rfl, rfl, needed⟩ := needs.of_watched
    refine .handed needed (supply needs supplied) ?_
    exact (construct_watched unobtrusive ..).trans (congrArg Result.unwatched call)
  | stored needs supplied unmet call =>
    obtain ⟨plain, make, rfl, rfl, needed⟩ := needs.of_watched
    have called := (construct_watched unobtrusive ..).trans (congrArg Result.unwatched call)
    exact (Step.stored needed (supply needs supplied) unmet called :)

theorem shutdown_unwatched (state : ContainerState σ (ω × β)) :
    shutdown state.unwatched = (shutdown state).unwatched := by
  have released (keys : List ServiceKey) (state : ContainerState σ (ω × β)) :
      keys.foldl release state.unwatched = (keys.foldl release state).unwatched := by
    induction keys generalizing state with
    | nil => rfl
    | cons first keys ih =>
      have once : release state.unwatched first = (release state first).unwatched := by
        rw [release, release, apply_ite ContainerState.unwatched]
        rfl
      rw [List.foldl_cons, List.foldl_cons, once, ih]
  exact released state.constructed.reverse { state with constructed := [] }

theorem after_unwatched (unobtrusive : watch.Unobtrusive) (injector : Injector σ ω)
    (state : ContainerState σ (ω × β)) (history : List Operation) :
    injector.after state.unwatched history =
      ((injector.watched watch).after state history).unwatched := by
  induction history generalizing state with
  | nil => rfl
  | cons operation history ih =>
    have once : injector.perform state.unwatched operation =
        ((injector.watched watch).perform state operation).unwatched := by
      cases operation with
      | resolve key =>
        exact congrArg Prod.snd (resolveOn_unwatched unobtrusive injector [] key state)
      | shutdown => exact shutdown_unwatched state
    rw [after_cons, after_cons, once, ih]

end Injector

end FsmWorkbench
