import FsmWorkbench.Proofs.Container.Recording
import Mathlib.Data.List.Count

set_option autoImplicit false

namespace FsmWorkbench.Injector

variable {σ ω : Type} {injector : Injector σ ω} {key : ServiceKey}

def isTransient (injector : Injector σ ω) (key : ServiceKey) : Bool :=
  (injector.binding? key).any fun binding => binding.scope == .transient

theorem isTransient_of_bound {binding : Binding σ ω}
    (bound : injector.binding? key = some binding) :
    injector.isTransient key = decide (binding.scope = .transient) := by
  rw [isTransient, bound]
  rfl

theorem Issued.exists_number {calls : List (Call σ)} {found : Instance σ}
    (issued : injector.Issued calls key found) (transient : injector.isTransient key = true) :
    ∃ number, found.handle = .made number := by
  cases issued with
  | prebuilt bound provider =>
    rw [isTransient_of_bound bound, Binding.scope, provider] at transient
    cases transient
  | made => exact ⟨_, rfl⟩

def transients (injector : Injector σ ω) (deliveries : List (Delivery σ)) : List Handle :=
  (deliveries.filter fun delivery => injector.isTransient delivery.1).map
    fun delivery => delivery.2.handle

@[simp] theorem transients_append (injector : Injector σ ω) (first second : List (Delivery σ)) :
    injector.transients (first ++ second) =
      injector.transients first ++ injector.transients second := by
  rw [transients, List.filter_append, List.map_append]
  rfl

theorem mem_transients {deliveries : List (Delivery σ)} {handle : Handle} :
    handle ∈ injector.transients deliveries ↔
      ∃ key found, (key, found) ∈ deliveries ∧ injector.isTransient key = true ∧
        found.handle = handle := by
  rw [transients]
  simp [and_assoc]

def Declared (injector : Injector σ ω) (key : ServiceKey) (handed : List (Delivery σ)) : Prop :=
  ∃ binding dependencies scope make, injector.binding? key = some binding ∧
    binding.provider = .factory dependencies scope make ∧ (handed.map Prod.fst).Nodup ∧
    ∀ dependency, dependency ∈ handed.map Prod.fst ↔ dependency ∈ dependencies

-- An instance was made for this key, out of singletons that are all cached.
def Held (injector : Injector σ ω) (state : ContainerState σ (ω × List (Call σ)))
    (key : ServiceKey) (found : Instance σ) : Prop :=
  ∃ (number : Nat) (making : Making σ), (makings state.world.2)[number]? = some making ∧
    making.maker = key ∧ making.instance number = found ∧
    ∀ dependency part, (dependency, part) ∈ making.handed →
      injector.isSingleton dependency = true → state.cached.get? dependency = some part

structure Custody (injector : Injector σ ω) (state : ContainerState σ (ω × List (Call σ))) :
    Prop where
  numbered : state.made = (makings state.world.2).length
  noted : ∀ key, (state.cached.get? key).isSome = true → key ∈ state.constructed
  held : ∀ key found, state.cached.get? key = some found → injector.Held state key found
  declared : ∀ call ∈ state.world.2, injector.Declared call.requester call.handed
  issued : ∀ delivery ∈ handovers state.world.2,
    injector.Issued state.world.2 delivery.1 delivery.2
  once : (injector.transients (handovers state.world.2)).Nodup

theorem Custody.start (injector : Injector σ ω) (world : ω) (events : List Event) :
    injector.Custody (.start (world, []) events) where
  numbered := rfl
  noted := by simp [ContainerState.start]
  held := by simp [ContainerState.start]
  declared := by simp [ContainerState.start]
  issued := by simp [ContainerState.start, handovers]
  once := List.nodup_nil

-- Time passes: nothing cached is lost, and what factories are handed anew was made since.
structure Passes (injector : Injector σ ω) (first second : ContainerState σ (ω × List (Call σ))) :
    Prop where
  grows : Grows first second
  made : first.made ≤ second.made
  recorded : ∃ added, second.world.2 = first.world.2 ++ added ∧
    ∀ number, .made number ∈ injector.transients (handovers added) → first.made ≤ number

theorem Passes.refl (injector : Injector σ ω) (state : ContainerState σ (ω × List (Call σ))) :
    injector.Passes state state where
  grows := .of_eq rfl rfl
  made := le_rfl
  recorded := ⟨[], (List.append_nil _).symm, by simp [handovers, transients]⟩

section Passes

variable {origin first second third state later last : ContainerState σ (ω × List (Call σ))}
  {found : Instance σ}

theorem Passes.trans (left : injector.Passes first second) (right : injector.Passes second third) :
    injector.Passes first third where
  grows := left.grows.trans right.grows
  made := left.made.trans right.made
  recorded := by
    obtain ⟨added, recorded, since⟩ := left.recorded
    obtain ⟨more, recordedMore, sinceMore⟩ := right.recorded
    refine ⟨added ++ more, by rw [recordedMore, recorded, List.append_assoc], ?_⟩
    intro number member
    rw [handovers_append, transients_append, List.mem_append] at member
    rcases member with member | member
    · exact since number member
    · exact left.made.trans (sinceMore number member)

theorem Held.issued (held : injector.Held first key found) :
    injector.Issued first.world.2 key found := by
  obtain ⟨number, making, known, rfl, rfl, -⟩ := held
  exact .made known

theorem Held.mono (held : injector.Held first key found) {added : List (Call σ)}
    (recorded : second.world.2 = first.world.2 ++ added) (grows : Grows first second) :
    injector.Held second key found := by
  obtain ⟨number, making, known, maker, same, cached⟩ := held
  refine ⟨number, making, ?_, maker, same, ?_⟩
  · rw [recorded, makings_append, List.getElem?_append_left (List.getElem?_eq_some_iff.1 known).1,
      known]
  · intro dependency part handed singleton
    exact grows.cached dependency part (cached dependency part handed singleton)

-- Made since some state, and not handed to any factory yet.
def Pending (injector : Injector σ ω) (origin : ContainerState σ (ω × List (Call σ)))
    (found : Instance σ) (state : ContainerState σ (ω × List (Call σ))) : Prop :=
  ∃ number, found.handle = .made number ∧ origin.made ≤ number ∧ number < state.made ∧
    found.handle ∉ injector.transients (handovers state.world.2)

theorem Pending.passes (pending : injector.Pending origin found first)
    (passes : injector.Passes first second) : injector.Pending origin found second := by
  obtain ⟨number, handle, since, before, unhanded⟩ := pending
  obtain ⟨added, recorded, after⟩ := passes.recorded
  refine ⟨number, handle, since, before.trans_le passes.made, ?_⟩
  rw [recorded, handovers_append, transients_append, List.mem_append]
  rintro (handed | handed)
  · exact unhanded handed
  · rw [handle] at handed
    exact absurd (after number handed) (Nat.not_le.2 before)

def custody (injector : Injector σ ω) : Regime σ (ω × List (Call σ)) where
  keeps := injector.Custody
  leads := injector.Passes
  good origin key found state := injector.Issued state.world.2 key found ∧
    (injector.isSingleton key = true → state.cached.get? key = some found) ∧
    (injector.isTransient key = true → injector.Pending origin found state)
  refl := Passes.refl injector
  trans := .trans
  stays passes good := by
    obtain ⟨issued, kept, pending⟩ := good
    obtain ⟨added, recorded, -⟩ := passes.recorded
    refine ⟨?_, fun singleton => passes.grows.cached _ _ (kept singleton),
      fun transient => (pending transient).passes passes⟩
    rw [recorded]
    exact issued.append added
  since passes good := by
    obtain ⟨issued, kept, pending⟩ := good
    refine ⟨issued, kept, fun transient => ?_⟩
    obtain ⟨number, handle, since, rest⟩ := pending transient
    exact ⟨number, handle, passes.made.trans since, rest⟩

section Call

variable {dependencies : List ServiceKey} {supplied : Table ServiceKey (Instance σ)}
  {call : Call σ}

theorem issued_of_fits (fits : injector.custody.Fits state dependencies supplied later)
    {delivery : Delivery σ} (handed : delivery ∈ supplied.entries) :
    injector.Issued later.world.2 delivery.1 delivery.2 :=
  (fits.good delivery.1 delivery.2 (Table.get?_eq_some_iff.2 handed)).1

theorem pending_of_fits (fits : injector.custody.Fits state dependencies supplied later)
    {handle : Handle} (member : handle ∈ injector.transients supplied.entries) :
    (∃ number, handle = .made number ∧ state.made ≤ number) ∧
      handle ∉ injector.transients (handovers later.world.2) := by
  obtain ⟨key, found, handed, transient, rfl⟩ := mem_transients.1 member
  obtain ⟨number, handle, since, -, unhanded⟩ :=
    (fits.good key found (Table.get?_eq_some_iff.2 handed)).2.2 transient
  exact ⟨⟨number, handle, since⟩, unhanded⟩

theorem declared_of_fits {binding : Binding σ ω} {scope : Scope} {make : Factory σ ω}
    (fits : injector.custody.Fits state dependencies supplied later)
    (bound : injector.binding? key = some binding)
    (provider : binding.provider = .factory dependencies scope make) :
    injector.Declared key supplied.entries := by
  refine ⟨binding, dependencies, scope, make, bound, provider, supplied.nodup, ?_⟩
  intro dependency
  rw [← fits.exact dependency]
  exact Table.mem_keys_iff

theorem nodup_of_fits (fits : injector.custody.Fits state dependencies supplied later) :
    (injector.transients supplied.entries).Nodup := by
  rw [transients]
  apply List.Nodup.map_on
  · intro first one second two same
    obtain ⟨keys, instances⟩ := (issued_of_fits fits (List.mem_of_mem_filter two)).unique
      (issued_of_fits fits (List.mem_of_mem_filter one)) same
    exact Prod.ext keys instances
  · exact supplied.nodup.of_map.filter _

theorem Passes.called (passes : injector.Passes state later)
    (fits : injector.custody.Fits state dependencies supplied later)
    (handed : call.handed = supplied.entries) (noted : Noted call later last) :
    injector.Passes state last where
  grows := passes.grows.trans (.of_eq noted.cached noted.constructed)
  made := passes.made.trans (noted.made ▸ Nat.le_add_right ..)
  recorded := by
    obtain ⟨added, recorded, since⟩ := passes.recorded
    refine ⟨added ++ [call], by rw [noted.calls, recorded, List.append_assoc], ?_⟩
    intro number member
    rw [handovers_append, handovers_singleton, transients_append, List.mem_append, handed] at member
    rcases member with member | member
    · exact since number member
    · obtain ⟨⟨same, handle, since⟩, -⟩ := pending_of_fits fits member
      exact Handle.made.inj handle ▸ since

theorem Custody.called (custody : injector.Custody later)
    (fits : injector.custody.Fits state dependencies supplied later)
    (handed : call.handed = supplied.entries) (noted : Noted call later last)
    (declared : injector.Declared call.requester call.handed) : injector.Custody last where
  numbered := by
    rw [noted.made, noted.calls, makings_append, List.length_append, custody.numbered]
  noted := by
    rw [noted.cached, noted.constructed]
    exact custody.noted
  held other found cached := by
    rw [noted.cached] at cached
    exact (custody.held other found cached).mono noted.calls
      (.of_eq noted.cached noted.constructed)
  declared := by
    rw [noted.calls, List.forall_mem_append]
    exact ⟨custody.declared, by simpa using declared⟩
  issued := by
    rw [noted.calls, handovers_append, handovers_singleton, handed, List.forall_mem_append]
    constructor
    · intro delivery member
      exact (custody.issued delivery member).append _
    · intro delivery member
      exact (issued_of_fits fits member).append _
  once := by
    rw [noted.calls, handovers_append, handovers_singleton, handed, transients_append,
      List.nodup_append]
    refine ⟨custody.once, nodup_of_fits fits, ?_⟩
    rintro handle old _ new rfl
    exact (pending_of_fits fits new).2 old

theorem Custody.newest (custody : injector.Custody later) {handed : List (Delivery σ)}
    {service : σ} (noted : Noted ⟨key, handed, .ok service⟩ later last) :
    (makings last.world.2)[later.made]? = some ⟨key, handed, service⟩ := by
  rw [noted.calls, makings_append, custody.numbered, List.getElem?_append_right le_rfl,
    Nat.sub_self]
  rfl

theorem Custody.pending (custody : injector.Custody later) (passes : injector.Passes state later)
    (fits : injector.custody.Fits state dependencies supplied later) {service : σ}
    (noted : Noted ⟨key, supplied.entries, .ok service⟩ later last)
    (handle : found.handle = .made later.made) : injector.Pending state found last := by
  refine ⟨later.made, handle, passes.made, ?_, ?_⟩
  · rw [noted.made]
    exact Nat.lt_succ_self later.made
  · rw [mem_transients]
    rintro ⟨other, part, member, -, same⟩
    have issued : injector.Issued later.world.2 other part := by
      rw [noted.calls, handovers_append, handovers_singleton, List.mem_append] at member
      rcases member with member | member
      · exact custody.issued _ member
      · exact issued_of_fits fits member
    have earlier := issued.lt (same.trans handle)
    rw [custody.numbered] at earlier
    exact Nat.lt_irrefl _ earlier

theorem Custody.held_newest (custody : injector.Custody later)
    (fits : injector.custody.Fits state dependencies supplied later) {service : σ}
    (noted : Noted ⟨key, supplied.entries, .ok service⟩ later last) :
    injector.Held last key (Making.instance ⟨key, supplied.entries, service⟩ later.made) := by
  refine ⟨later.made, _, custody.newest noted, rfl, rfl, ?_⟩
  intro dependency part handed singleton
  rw [noted.cached]
  exact (fits.good dependency part (Table.get?_eq_some_iff.2 handed)).2.1 singleton

end Call

-- Nothing that was cached is replaced, so what singletons hold stays cached.
theorem Custody.keep (custody : injector.Custody state) {binding : Binding σ (ω × List (Call σ))}
    (uncached : state.cached.get? key = none) (held : injector.Held state key found) :
    injector.Custody (keep key binding found state) where
  numbered := custody.numbered
  noted other cached := by
    change ((state.cached.put key found).get? other).isSome = true at cached
    change other ∈ state.constructed ++ [key]
    rw [List.mem_append, List.mem_singleton]
    by_cases same : other = key
    · exact .inr same
    · rw [Table.get?_put, if_neg same] at cached
      exact .inl (custody.noted other cached)
  held other another cached := by
    have grows : Grows state (Injector.keep key binding found state) := .keep binding uncached found
    have recorded : (Injector.keep key binding found state).world.2 = state.world.2 ++ [] :=
      (List.append_nil _).symm
    change (state.cached.put key found).get? other = some another at cached
    rw [Table.get?_put] at cached
    split at cached
    · next same =>
      obtain rfl := Option.some.inj cached
      exact same ▸ held.mono recorded grows
    · exact (custody.held other another cached).mono recorded grows
  declared := custody.declared
  issued := custody.issued
  once := custody.once

theorem Passes.keep (passes : injector.Passes state last)
    (binding : Binding σ (ω × List (Call σ))) (uncached : last.cached.get? key = none) :
    injector.Passes state (keep key binding found last) where
  grows := passes.grows.trans (.keep binding uncached found)
  made := passes.made
  recorded := passes.recorded

end Passes

theorem custody_lawful (injector : Injector σ ω) : injector.custody.Lawful injector.recorded := by
  constructor
  case prebuilt =>
    intro key binding service state bound provider _
    obtain ⟨plain, known, rfl⟩ := exists_of_watched bound
    have given := Provider.eq_prebuilt_of_watched provider
    refine ⟨.prebuilt known given, ?_, ?_⟩
    · simp [isSingleton_of_prebuilt known given]
    · simp [isTransient_of_bound known, Binding.scope, given]
  case kept =>
    intro key binding dependencies make found state bound provider custody cached
    obtain ⟨plain, make, known, made, rfl⟩ := exists_factory_of_watched bound provider
    refine ⟨(custody.held key found cached).issued, fun _ => cached, ?_⟩
    simp [isTransient_of_bound known, Binding.scope, made]
  case refused =>
    intro key binding dependencies scope make supplied error state later last bound provider passes
      fits custody call
    obtain ⟨plain, make, known, made, rfl⟩ := exists_factory_of_watched bound provider
    have noted := noted_of_construct call
    exact ⟨custody.called fits rfl noted (declared_of_fits fits known made),
      passes.called fits rfl noted⟩
  case handed =>
    intro key binding dependencies make supplied found state later last bound provider passes fits
      custody call
    obtain ⟨plain, make, known, made, rfl⟩ := exists_factory_of_watched bound provider
    have noted := noted_of_construct call
    have same := eq_of_construct call
    refine ⟨custody.called fits rfl noted (declared_of_fits fits known made),
      passes.called fits rfl noted, ?_, ?_, ?_⟩
    · rw [same]
      exact (custody.held_newest fits noted).issued
    · simp [isSingleton_of_factory known made]
    · intro _
      exact custody.pending passes fits noted (congrArg Instance.handle same)
  case stored =>
    intro key binding dependencies make supplied found state later last bound provider passes fits
      custody uncached call
    obtain ⟨plain, make, known, made, rfl⟩ := exists_factory_of_watched bound provider
    have noted := noted_of_construct call
    have same := eq_of_construct call
    have called := custody.called fits rfl noted (declared_of_fits fits known made)
    have free : last.cached.get? key = none := noted.cached ▸ uncached
    have held : injector.Held last key found := by
      rw [same]
      exact custody.held_newest fits noted
    refine ⟨called.keep free held, (passes.called fits rfl noted).keep _ free, held.issued, ?_, ?_⟩
    · intro _
      exact (Table.get?_put ..).trans (if_pos rfl)
    · simp [isTransient_of_bound known, Binding.scope, made]

end FsmWorkbench.Injector
