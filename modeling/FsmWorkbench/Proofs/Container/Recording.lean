import FsmWorkbench.Proofs.Container.Watching

set_option autoImplicit false

namespace FsmWorkbench

variable {σ ω : Type}

abbrev Delivery (σ : Type) := ServiceKey × Instance σ

structure Call (σ : Type) where
  requester : ServiceKey
  handed : List (Delivery σ)
  outcome : Except ResolveError σ

structure Making (σ : Type) where
  maker : ServiceKey
  handed : List (Delivery σ)
  service : σ

def Making.instance (making : Making σ) (number : Nat) : Instance σ :=
  ⟨.made number, making.service, making.handed.map fun entry => (entry.1, entry.2.handle)⟩

def Call.making? (call : Call σ) : Option (Making σ) :=
  match call.outcome with
  | .ok service => some ⟨call.requester, call.handed, service⟩
  | .error _ => none

theorem Call.of_making? {call : Call σ} {making : Making σ} (made : call.making? = some making) :
    call.requester = making.maker ∧ call.handed = making.handed := by
  rw [making?] at made
  split at made
  · obtain rfl := Option.some.inj made
    exact ⟨rfl, rfl⟩
  · cases made

def makings (calls : List (Call σ)) : List (Making σ) :=
  calls.filterMap Call.making?

def handovers (calls : List (Call σ)) : List (Delivery σ) :=
  calls.flatMap Call.handed

@[simp] theorem makings_append (first second : List (Call σ)) :
    makings (first ++ second) = makings first ++ makings second :=
  List.filterMap_append

@[simp] theorem handovers_append (first second : List (Call σ)) :
    handovers (first ++ second) = handovers first ++ handovers second :=
  List.flatMap_append

@[simp] theorem handovers_singleton (call : Call σ) : handovers [call] = call.handed := by
  simp [handovers]

theorem exists_of_mem_makings {calls : List (Call σ)} {making : Making σ}
    (member : making ∈ makings calls) :
    ∃ call ∈ calls, call.requester = making.maker ∧ call.handed = making.handed := by
  obtain ⟨call, called, made⟩ := List.mem_filterMap.1 member
  exact ⟨call, called, Call.of_making? made⟩

theorem mem_handovers_of_making {calls : List (Call σ)} {number : Nat} {making : Making σ}
    (known : (makings calls)[number]? = some making) {delivery : Delivery σ}
    (handed : delivery ∈ making.handed) : delivery ∈ handovers calls := by
  obtain ⟨call, called, -, same⟩ := exists_of_mem_makings (List.mem_of_getElem? known)
  exact List.mem_flatMap.2 ⟨call, called, same ▸ handed⟩

def Factory.recorded (key : ServiceKey) (make : Factory σ ω) : Factory σ (ω × List (Call σ)) :=
  fun supplies world =>
    let attempt := make supplies world.1
    ⟨attempt.outcome,
      (attempt.world, world.2 ++ [⟨key, supplies.instances.entries, attempt.outcome⟩]),
      attempt.notes⟩

theorem unobtrusive_recorded :
    Watch.Unobtrusive (Factory.recorded : Watch σ ω (List (Call σ))) :=
  fun _ _ _ _ => rfl

namespace Injector

def recorded (injector : Injector σ ω) : Injector σ (ω × List (Call σ)) :=
  injector.watched Factory.recorded

-- The record has it that a key got this instance: it was there from the start, or the call that
-- made it was for this key.
inductive Issued (injector : Injector σ ω) (calls : List (Call σ)) :
    ServiceKey → Instance σ → Prop where
  | prebuilt {key : ServiceKey} {binding : Binding σ ω} {service : σ}
      (bound : injector.binding? key = some binding)
      (provider : binding.provider = .prebuilt service) :
      Issued injector calls key ⟨.prebuilt key, service, []⟩
  | made {number : Nat} {making : Making σ} (known : (makings calls)[number]? = some making) :
      Issued injector calls making.maker (making.instance number)

variable {injector : Injector σ ω} {calls : List (Call σ)} {key other : ServiceKey}
  {found same : Instance σ}

theorem Issued.append (issued : injector.Issued calls key found) (more : List (Call σ)) :
    injector.Issued (calls ++ more) key found := by
  cases issued with
  | prebuilt bound provider => exact .prebuilt bound provider
  | made known =>
    apply Issued.made
    rw [makings_append, List.getElem?_append_left (List.getElem?_eq_some_iff.1 known).1, known]

-- Handles tell instances apart, and what key each was for.
theorem Issued.unique (issued : injector.Issued calls key found)
    (again : injector.Issued calls other same) (handle : same.handle = found.handle) :
    other = key ∧ same = found := by
  cases issued with
  | prebuilt bound provider =>
    cases again with
    | prebuilt known given =>
      obtain rfl := Handle.prebuilt.inj handle
      obtain rfl := Option.some.inj (bound.symm.trans known)
      obtain rfl := Provider.prebuilt.inj (provider.symm.trans given)
      exact ⟨rfl, rfl⟩
    | made => cases handle
  | made known =>
    cases again with
    | prebuilt => cases handle
    | made again =>
      obtain rfl := Handle.made.inj handle
      obtain rfl := Option.some.inj (known.symm.trans again)
      exact ⟨rfl, rfl⟩

theorem Issued.lt {number : Nat} (issued : injector.Issued calls key found)
    (handle : found.handle = .made number) : number < (makings calls).length := by
  cases issued with
  | prebuilt => cases handle
  | made known =>
    obtain rfl := Handle.made.inj handle
    exact (List.getElem?_eq_some_iff.1 known).1

structure Noted (call : Call σ) (later last : ContainerState σ (ω × List (Call σ))) : Prop where
  calls : last.world.2 = later.world.2 ++ [call]
  made : last.made = later.made + (makings [call]).length
  cached : last.cached = later.cached
  constructed : last.constructed = later.constructed

theorem noted_of_construct {make : Factory σ ω} {supplied : Table ServiceKey (Instance σ)}
    {later last : ContainerState σ (ω × List (Call σ))}
    {outcome : Except ResolveError (Instance σ)}
    (call : construct (Factory.recorded key make) ⟨key, supplied⟩ later = (outcome, last)) :
    Noted ⟨key, supplied.entries, outcome.map Instance.service⟩ later last := by
  have told {first second : Except ResolveError σ} (same : first = second) :=
    congrArg (fun outcome => later.world.2 ++ [Call.mk key supplied.entries outcome]) same
  rw [construct] at call
  split at call
  · next failed =>
    obtain ⟨rfl, rfl⟩ := Prod.mk.inj call
    exact ⟨told failed, rfl, rfl, rfl⟩
  · next done =>
    obtain ⟨rfl, rfl⟩ := Prod.mk.inj call
    exact ⟨told done, rfl, rfl, rfl⟩

def answered (injector : Injector σ ω) (state : ContainerState σ ω) :
    Operation → List (Delivery σ)
  | .resolve key => (injector.resolve key state).1.toOption.toList.map (key, ·)
  | .shutdown => []

theorem mem_answered {first : ServiceKey} {state : ContainerState σ ω} :
    (key, found) ∈ injector.answered state (.resolve first) ↔
      first = key ∧ (injector.resolve first state).1 = .ok found := by
  rw [answered]
  cases (injector.resolve first state).1 <;> simp [Except.toOption, eq_comm]

def answers (injector : Injector σ ω) : ContainerState σ ω → List Operation → List (Delivery σ)
  | _, [] => []
  | state, operation :: history =>
    injector.answered state operation ++
      injector.answers (injector.perform state operation) history

theorem answers_recorded (injector : Injector σ ω)
    (state : ContainerState σ (ω × List (Call σ))) (history : List Operation) :
    injector.answers state.unwatched history = injector.recorded.answers state history := by
  induction history generalizing state with
  | nil => rfl
  | cons operation history ih =>
    have after : injector.perform state.unwatched operation =
        (injector.recorded.perform state operation).unwatched :=
      after_unwatched unobtrusive_recorded injector state [operation]
    have once : injector.answered state.unwatched operation =
        injector.recorded.answered state operation := by
      cases operation with
      | resolve key =>
        have same := resolveOn_unwatched unobtrusive_recorded injector [] key state
        exact congrArg (fun result => result.1.toOption.toList.map (key, ·)) same
      | shutdown => rfl
    rw [answers, answers, once, after, ih]

end Injector

end FsmWorkbench
