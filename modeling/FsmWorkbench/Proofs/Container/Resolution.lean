import FsmWorkbench.Container.Injector

set_option autoImplicit false

namespace FsmWorkbench.Injector

variable {σ ω : Type}

abbrev Result (σ ω : Type) := Except ResolveError (Instance σ) × ContainerState σ ω

-- A factory has to be called, or its dependencies resolved for that: nothing is kept yet.
structure Needs (injector : Injector σ ω) (path : List ServiceKey) (key : ServiceKey)
    (state : ContainerState σ ω) (binding : Binding σ ω) (dependencies : List ServiceKey)
    (scope : Scope) (make : Factory σ ω) : Prop where
  bound : injector.binding? key = some binding
  provider : binding.provider = .factory dependencies scope make
  unkept : kept? scope key state = none
  fresh : key ∉ path

-- All ways in which resolving a key from the end of a path comes out.
inductive Step (injector : Injector σ ω) (path : List ServiceKey) (key : ServiceKey)
    (state : ContainerState σ ω) : Result σ ω → Prop where
  | missing (unbound : injector.binding? key = none) :
      Step injector path key state (.error (.missingBinding key), state)
  | prebuilt {binding : Binding σ ω} {service : σ} (bound : injector.binding? key = some binding)
      (provider : binding.provider = .prebuilt service) :
      Step injector path key state (.ok ⟨.prebuilt key, service, []⟩, state)
  | kept {binding : Binding σ ω} {dependencies : List ServiceKey} {make : Factory σ ω}
      {found : Instance σ} (bound : injector.binding? key = some binding)
      (provider : binding.provider = .factory dependencies .singleton make)
      (cached : state.cached.get? key = some found) :
      Step injector path key state (.ok found, state)
  | cyclic {binding : Binding σ ω} {dependencies : List ServiceKey} {scope : Scope}
      {make : Factory σ ω} (bound : injector.binding? key = some binding)
      (provider : binding.provider = .factory dependencies scope make)
      (unkept : kept? scope key state = none) (entered : key ∈ path) :
      Step injector path key state (.error (.cyclicDependency (path ++ [key])), state)
  | unsupplied {binding : Binding σ ω} {dependencies : List ServiceKey} {scope : Scope}
      {make : Factory σ ω} {error : ResolveError} {later : ContainerState σ ω}
      (needs : Needs injector path key state binding dependencies scope make)
      (supply : supplyAll (fun next => injector.resolveOn (path ++ [key]) next) dependencies .empty
        state = (.error error, later)) :
      Step injector path key state (.error error, later)
  | met {binding : Binding σ ω} {dependencies : List ServiceKey} {make : Factory σ ω}
      {supplied : Table ServiceKey (Instance σ)} {found : Instance σ} {later : ContainerState σ ω}
      (needs : Needs injector path key state binding dependencies .singleton make)
      (supply : supplyAll (fun next => injector.resolveOn (path ++ [key]) next) dependencies .empty
        state = (.ok supplied, later))
      (cached : later.cached.get? key = some found) :
      Step injector path key state (.ok found, later)
  | refused {binding : Binding σ ω} {dependencies : List ServiceKey} {scope : Scope}
      {make : Factory σ ω} {supplied : Table ServiceKey (Instance σ)} {error : ResolveError}
      {later last : ContainerState σ ω}
      (needs : Needs injector path key state binding dependencies scope make)
      (supply : supplyAll (fun next => injector.resolveOn (path ++ [key]) next) dependencies .empty
        state = (.ok supplied, later))
      (unmet : kept? scope key later = none)
      (call : construct make ⟨key, supplied⟩ later = (.error error, last)) :
      Step injector path key state (.error error, last)
  | handed {binding : Binding σ ω} {dependencies : List ServiceKey} {make : Factory σ ω}
      {supplied : Table ServiceKey (Instance σ)} {made : Instance σ}
      {later last : ContainerState σ ω}
      (needs : Needs injector path key state binding dependencies .transient make)
      (supply : supplyAll (fun next => injector.resolveOn (path ++ [key]) next) dependencies .empty
        state = (.ok supplied, later))
      (call : construct make ⟨key, supplied⟩ later = (.ok made, last)) :
      Step injector path key state (.ok made, last)
  | stored {binding : Binding σ ω} {dependencies : List ServiceKey} {make : Factory σ ω}
      {supplied : Table ServiceKey (Instance σ)} {made : Instance σ}
      {later last : ContainerState σ ω}
      (needs : Needs injector path key state binding dependencies .singleton make)
      (supply : supplyAll (fun next => injector.resolveOn (path ++ [key]) next) dependencies .empty
        state = (.ok supplied, later))
      (unmet : later.cached.get? key = none)
      (call : construct make ⟨key, supplied⟩ later = (.ok made, last)) :
      Step injector path key state (.ok made, keep key binding made last)

theorem resolveOn_step (injector : Injector σ ω) (path : List ServiceKey) (key : ServiceKey)
    (state : ContainerState σ ω) :
    injector.Step path key state (injector.resolveOn path key state) := by
  rw [resolveOn]
  split
  · next unbound => exact .missing unbound
  next binding bound =>
  split
  · next service provider => exact .prebuilt bound provider
  next dependencies scope make provider =>
  split
  · next found known =>
    obtain ⟨rfl, cached⟩ := Option.ite_none_right_eq_some.1 known
    exact .kept bound provider cached
  next unkept =>
  split
  · next entered => exact .cyclic bound provider unkept entered
  next fresh =>
  have needs : Needs injector path key state binding dependencies scope make :=
    ⟨bound, provider, unkept, fresh⟩
  split
  · next error later supply => exact .unsupplied needs supply
  next supplied later supply =>
  split
  · next found known =>
    obtain ⟨rfl, cached⟩ := Option.ite_none_right_eq_some.1 known
    exact .met needs supply cached
  next unmet =>
  split
  · next error last call => exact .refused needs supply unmet call
  next made last call =>
  cases scope with
  | transient => exact .handed needs supply call
  | singleton => exact .stored needs supply unmet call

theorem resolveOn_prebuilt {injector : Injector σ ω} {key : ServiceKey} {binding : Binding σ ω}
    {service : σ} (bound : injector.binding? key = some binding)
    (provider : binding.provider = .prebuilt service) (path : List ServiceKey)
    (state : ContainerState σ ω) :
    injector.resolveOn path key state = (.ok ⟨.prebuilt key, service, []⟩, state) := by
  rw [resolveOn]
  split
  · next unbound => cases bound.symm.trans unbound
  · next other same =>
    obtain rfl := Option.some.inj (bound.symm.trans same)
    rw [provider]

theorem resolveOn_factory {injector : Injector σ ω} {key : ServiceKey} {binding : Binding σ ω}
    {dependencies : List ServiceKey} {scope : Scope} {make : Factory σ ω}
    (bound : injector.binding? key = some binding)
    (provider : binding.provider = .factory dependencies scope make) (path : List ServiceKey)
    (state : ContainerState σ ω) :
    injector.resolveOn path key state =
      match kept? scope key state with
      | some found => (.ok found, state)
      | none =>
        if key ∈ path then (.error (.cyclicDependency (path ++ [key])), state)
        else
          match supplyAll (fun next => injector.resolveOn (path ++ [key]) next) dependencies .empty
              state with
          | (.error error, later) => (.error error, later)
          | (.ok supplied, later) =>
            match kept? scope key later with
            | some found => (.ok found, later)
            | none =>
              match construct make ⟨key, supplied⟩ later with
              | (.error error, last) => (.error error, last)
              | (.ok made, last) =>
                (.ok made, if scope = .singleton then keep key binding made last else last) := by
  rw [resolveOn]
  split
  · next unbound => cases bound.symm.trans unbound
  · next other same =>
    obtain rfl := Option.some.inj (bound.symm.trans same)
    rw [provider]
    rfl

theorem Step.resolveOn_eq {injector : Injector σ ω} {path : List ServiceKey} {key : ServiceKey}
    {state : ContainerState σ ω} {result : Result σ ω}
    (step : injector.Step path key state result) : injector.resolveOn path key state = result := by
  cases step with
  | missing unbound =>
    rw [resolveOn]
    split
    · rfl
    · next bound => cases unbound.symm.trans bound
  | prebuilt bound provider => exact resolveOn_prebuilt bound provider path state
  | kept bound provider cached => simp [resolveOn_factory bound provider, kept?, cached]
  | cyclic bound provider unkept entered =>
    simp [resolveOn_factory bound provider, unkept, entered]
  | unsupplied needs supply =>
    simp [resolveOn_factory needs.bound needs.provider, needs.unkept, needs.fresh, supply]
  | met needs supply cached =>
    have met : kept? .singleton key _ = some _ := cached
    simp [resolveOn_factory needs.bound needs.provider, needs.unkept, needs.fresh, supply, met]
  | refused needs supply unmet call =>
    simp [resolveOn_factory needs.bound needs.provider, needs.unkept, needs.fresh, supply, unmet,
      call]
  | handed needs supply call =>
    have unmet (later : ContainerState σ ω) : kept? .transient key later = none := rfl
    simp [resolveOn_factory needs.bound needs.provider, needs.fresh, supply, unmet, call]
  | stored needs supply unmet call =>
    have unmet : kept? .singleton key _ = none := unmet
    simp [resolveOn_factory needs.bound needs.provider, needs.unkept, needs.fresh, supply, unmet,
      call]

-- Along the recursion fewer and fewer bound keys are off the path.
theorem path_induction (injector : Injector σ ω) {motive : List ServiceKey → Prop}
    (step : ∀ path, (∀ key binding, injector.binding? key = some binding → key ∉ path →
      motive (path ++ [key])) → motive path) (path : List ServiceKey) : motive path := by
  induction n : (injector.offPath path).length using Nat.strongRecOn generalizing path with
  | ind n ih =>
    subst n
    apply step
    intro key binding bound fresh
    exact ih _ (length_offPath_append_lt bound fresh) (path ++ [key]) rfl

section Construct

variable {make : Factory σ ω} {supplies : Supplies σ} {state last : ContainerState σ ω}

theorem unchanged_of_construct {outcome : Except ResolveError (Instance σ)}
    (call : construct make supplies state = (outcome, last)) :
    last.cached = state.cached ∧ last.constructed = state.constructed := by
  rw [construct] at call
  split at call
  · obtain ⟨-, rfl⟩ := Prod.mk.inj call
    exact ⟨rfl, rfl⟩
  · obtain ⟨-, rfl⟩ := Prod.mk.inj call
    exact ⟨rfl, rfl⟩

theorem outcome_of_construct {made : Instance σ}
    (call : construct make supplies state = (.ok made, last)) :
    (make supplies state.world).outcome = .ok made.service := by
  rw [construct] at call
  split at call
  · cases call
  · next service outcome =>
    obtain ⟨same, -⟩ := Prod.mk.inj call
    obtain rfl := Except.ok.inj same
    exact outcome

theorem eq_of_construct {made : Instance σ}
    (call : construct make supplies state = (.ok made, last)) :
    made = ⟨.made state.made, made.service, supplies.handles⟩ := by
  rw [construct] at call
  split at call
  · cases call
  · obtain ⟨same, -⟩ := Prod.mk.inj call
    obtain rfl := Except.ok.inj same
    rfl

theorem error_of_construct {error : ResolveError}
    (call : construct make supplies state = (.error error, last)) :
    (make supplies state.world).outcome = .error error := by
  rw [construct] at call
  split at call
  · next outcome =>
    obtain ⟨same, -⟩ := Prod.mk.inj call
    obtain rfl := Except.error.inj same
    exact outcome
  · cases call

end Construct

theorem foldl_release (keys : List ServiceKey) (state : ContainerState σ ω) :
    (∀ key, (keys.foldl release state).cached.get? key =
        if key ∈ keys then none else state.cached.get? key) ∧
      (keys.foldl release state).constructed = state.constructed := by
  induction keys generalizing state with
  | nil => simp
  | cons first keys ih =>
    obtain ⟨cached, constructed⟩ := ih (release state first)
    have released : ∀ key, (release state first).cached.get? key =
        if key = first then none else state.cached.get? key := by
      intro key
      rw [release]
      split
      · exact Table.get?_erase ..
      · next absent =>
        rw [← Table.isSome_get?] at absent
        split <;> simp_all
    have unchanged : (release state first).constructed = state.constructed := by
      rw [release]
      split <;> rfl
    refine ⟨?_, constructed.trans unchanged⟩
    intro key
    rw [List.foldl_cons, cached, released]
    by_cases same : key = first <;> simp [same]

theorem get?_shutdown (state : ContainerState σ ω) (key : ServiceKey) :
    (Injector.shutdown state).cached.get? key =
      if key ∈ state.constructed then none else state.cached.get? key := by
  rw [Injector.shutdown, (foldl_release _ _).1]
  simp only [List.mem_reverse]

theorem constructed_shutdown (state : ContainerState σ ω) :
    (Injector.shutdown state).constructed = [] := by
  rw [Injector.shutdown, (foldl_release _ _).2]

theorem world_shutdown (state : ContainerState σ ω) :
    (shutdown state).world = state.world ∧ (shutdown state).made = state.made := by
  have released (keys : List ServiceKey) (state : ContainerState σ ω) :
      (keys.foldl release state).world = state.world ∧
        (keys.foldl release state).made = state.made := by
    induction keys generalizing state with
    | nil => exact ⟨rfl, rfl⟩
    | cons first keys ih =>
      obtain ⟨world, made⟩ := ih (release state first)
      rw [List.foldl_cons, world, made, release]
      split <;> exact ⟨rfl, rfl⟩
  exact released state.constructed.reverse { state with constructed := [] }

theorem events_foldl_release {keys : List ServiceKey} (nodup : keys.Nodup)
    {state : ContainerState σ ω} (cached : ∀ key ∈ keys, (state.cached.get? key).isSome = true) :
    (keys.foldl release state).events = state.events ++ keys.map .released := by
  induction keys generalizing state with
  | nil => simp
  | cons first keys ih =>
    rw [List.nodup_cons] at nodup
    rw [List.forall_mem_cons] at cached
    have present : state.cached.contains first = true := by
      rw [← Table.isSome_get?]
      exact cached.1
    have later : ∀ key ∈ keys, ((release state first).cached.get? key).isSome = true := by
      intro key member
      have other : key ≠ first := by
        rintro rfl
        exact nodup.1 member
      rw [release, if_pos present]
      exact (congrArg Option.isSome ((Table.get?_erase ..).trans (if_neg other))).trans
        (cached.2 key member)
    rw [List.foldl_cons, ih nodup.2 later, release, if_pos present]
    simp [ContainerState.record]

inductive Operation where
  | resolve (key : ServiceKey)
  | shutdown
  deriving DecidableEq, Repr, Inhabited

def perform (injector : Injector σ ω) (state : ContainerState σ ω) :
    Operation → ContainerState σ ω
  | .resolve key => (injector.resolve key state).2
  | .shutdown => Injector.shutdown state

def after (injector : Injector σ ω) (state : ContainerState σ ω) (history : List Operation) :
    ContainerState σ ω :=
  history.foldl injector.perform state

@[simp] theorem after_nil (injector : Injector σ ω) (state : ContainerState σ ω) :
    injector.after state [] = state := rfl

@[simp] theorem after_cons (injector : Injector σ ω) (state : ContainerState σ ω)
    (operation : Operation) (history : List Operation) :
    injector.after state (operation :: history) =
      injector.after (injector.perform state operation) history := rfl

theorem after_append (injector : Injector σ ω) (state : ContainerState σ ω)
    (first second : List Operation) :
    injector.after state (first ++ second) = injector.after (injector.after state first) second :=
  List.foldl_append

end FsmWorkbench.Injector
