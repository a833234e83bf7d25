import FsmWorkbench.Proofs.Container.Recording
import Mathlib.Data.List.Count

set_option autoImplicit false

namespace FsmWorkbench.Injector

variable {σ ω : Type} {injector : Injector σ ω} {key : ServiceKey}

@[simp] theorem makings_ok (key : ServiceKey) (handed : List (Delivery σ)) (service : σ) :
    makings [⟨key, handed, .ok service⟩] = [⟨key, handed, service⟩] := rfl

@[simp] theorem makings_error (key : ServiceKey) (handed : List (Delivery σ))
    (error : ResolveError) : makings [⟨key, handed, .error error⟩] = [] := rfl

def successes (key : ServiceKey) (calls : List (Call σ)) : Nat :=
  (makings calls).countP fun making => making.maker == key

@[simp] theorem successes_append (key : ServiceKey) (first second : List (Call σ)) :
    successes key (first ++ second) = successes key first + successes key second := by
  rw [successes, makings_append, List.countP_append]
  rfl

theorem successes_pos {calls : List (Call σ)} :
    0 < successes key calls ↔ ∃ making ∈ makings calls, making.maker = key := by
  rw [successes, List.countP_pos_iff]
  simp only [beq_iff_eq]

-- Calls account for what is cached from one state to another: nothing is lost, and each singleton
-- that is cached was cached before or made by one of the calls. What factories were handed on the
-- way, also those that failed, is cached, and so is what was made.
structure Accounts (injector : Injector σ ω) (calls : List (Call σ))
    (first second : ContainerState σ (ω × List (Call σ))) : Prop where
  recorded : second.world.2 = first.world.2 ++ calls
  stays : ∀ key found, first.cached.get? key = some found → second.cached.get? key = some found
  once : ∀ key, injector.isSingleton key = true →
    (first.cached.get? key).isSome.toNat + successes key calls =
      (second.cached.get? key).isSome.toNat
  handed : ∀ dependency part, (dependency, part) ∈ handovers calls →
    injector.isSingleton dependency = true → second.cached.get? dependency = some part
  kept : ∀ making ∈ makings calls, injector.isSingleton making.maker = true →
    ∃ number, second.cached.get? making.maker = some (making.instance number)

section Accounts

variable {first second third later last : ContainerState σ (ω × List (Call σ))}
  {calls more : List (Call σ)} {call : Call σ}

theorem Accounts.refl (injector : Injector σ ω) (state : ContainerState σ (ω × List (Call σ))) :
    injector.Accounts [] state state where
  recorded := (List.append_nil _).symm
  stays _ _ known := known
  once _ _ := rfl
  handed _ _ member := by simp [handovers] at member
  kept _ member := by simp [makings] at member

theorem Accounts.trans (left : injector.Accounts calls first second)
    (right : injector.Accounts more second third) :
    injector.Accounts (calls ++ more) first third where
  recorded := by rw [right.recorded, left.recorded, List.append_assoc]
  stays key found known := right.stays key found (left.stays key found known)
  once key singleton := by
    have before := left.once key singleton
    have behind := right.once key singleton
    rw [successes_append]
    omega
  handed dependency part member singleton := by
    rw [handovers_append, List.mem_append] at member
    rcases member with earlier | later
    · exact right.stays dependency part (left.handed dependency part earlier singleton)
    · exact right.handed dependency part later singleton
  kept making member singleton := by
    rw [makings_append, List.mem_append] at member
    rcases member with earlier | later
    · obtain ⟨number, cached⟩ := left.kept making earlier singleton
      exact ⟨number, right.stays _ _ cached⟩
    · exact right.kept making later singleton

def Selective {α : Type} (injector : Injector σ ω) (state : ContainerState σ α) : Prop :=
  ∀ key found, state.cached.get? key = some found → injector.isSingleton key = true

theorem Selective.of_eq {α : Type} {state other : ContainerState σ α}
    (selective : injector.Selective state) (cached : other.cached = state.cached) :
    injector.Selective other := by
  intro key found known
  exact selective key found (cached ▸ known)

theorem Selective.keep {α : Type} {state : ContainerState σ α}
    (selective : injector.Selective state) (singleton : injector.isSingleton key = true)
    {binding : Binding σ α} {made : Instance σ} :
    injector.Selective (keep key binding made state) := by
  intro other found cached
  rw [get?_keep] at cached
  split at cached
  · next same => exact same ▸ singleton
  · exact selective other found cached

theorem selective_shutdown {α : Type} (state : ContainerState σ α)
    (selective : injector.Selective state) : injector.Selective (shutdown state) := by
  intro key found cached
  rw [get?_shutdown] at cached
  split at cached
  · cases cached
  · exact selective key found cached

theorem Accounts.newly_iff (accounts : injector.Accounts calls first second)
    (selective : injector.Selective second) :
    first.cached.get? key = none ∧ (second.cached.get? key).isSome = true ↔
      injector.isSingleton key = true ∧ 0 < successes key calls := by
  have told (singleton : injector.isSingleton key = true) :
      first.cached.get? key = none ∧ (second.cached.get? key).isSome = true ↔
        0 < successes key calls := by
    have once := accounts.once key singleton
    cases before : first.cached.get? key <;> cases behind : second.cached.get? key <;>
      simp_all
  constructor
  · intro new
    obtain ⟨found, cached⟩ := Option.isSome_iff_exists.1 new.2
    have singleton := selective key found cached
    exact ⟨singleton, (told singleton).1 new⟩
  · rintro ⟨singleton, made⟩
    exact (told singleton).2 made

def accounting (injector : Injector σ ω) : Discipline σ (ω × List (Call σ)) where
  keeps := injector.Selective
  leads first second := ∃ calls, injector.Accounts calls first second
  good key found state :=
    injector.isSingleton key = true → state.cached.get? key = some found
  refl state := ⟨[], .refl injector state⟩
  trans := by
    rintro first second third ⟨calls, left⟩ ⟨more, right⟩
    exact ⟨calls ++ more, left.trans right⟩
  stays := by
    rintro first second key found ⟨calls, accounts⟩ cached singleton
    exact accounts.stays key found (cached singleton)

variable {dependencies : List ServiceKey} {supplied : Table ServiceKey (Instance σ)}
  {found : Instance σ}

theorem cached_of_fits (fits : injector.accounting.Fits dependencies supplied later)
    {dependency : ServiceKey} {part : Instance σ}
    (handed : (dependency, part) ∈ supplied.entries)
    (singleton : injector.isSingleton dependency = true) :
    later.cached.get? dependency = some part :=
  fits.good dependency part (Table.get?_eq_some_iff.2 handed) singleton

theorem Accounts.called (fits : injector.accounting.Fits dependencies supplied later)
    (handed : call.handed = supplied.entries) (noted : Noted call later last)
    (passing : ∀ making ∈ makings [call], injector.isSingleton making.maker = false) :
    injector.Accounts [call] later last where
  recorded := noted.calls
  stays key found known := noted.cached ▸ known
  once key singleton := by
    have none : ¬0 < successes key [call] := by
      rw [successes_pos]
      rintro ⟨making, member, rfl⟩
      simp [passing making member] at singleton
    rw [noted.cached]
    omega
  handed dependency part member singleton := by
    rw [handovers_singleton, handed] at member
    rw [noted.cached]
    exact cached_of_fits fits member singleton
  kept making member singleton := by simp [passing making member] at singleton

theorem Noted.grows (noted : Noted call later last) (binding : Binding σ (ω × List (Call σ)))
    (uncached : later.cached.get? key = none) (made : Instance σ) :
    Grows later (keep key binding made last) := by
  have called : Grows later last := .of_eq noted.cached noted.constructed
  exact called.trans (.keep binding (noted.cached ▸ uncached) made)

theorem Accounts.stored (fits : injector.accounting.Fits dependencies supplied later)
    (binding : Binding σ (ω × List (Call σ))) (uncached : later.cached.get? key = none)
    (noted : Noted ⟨key, supplied.entries, .ok found.service⟩ later last)
    (same : found = Making.instance ⟨key, supplied.entries, found.service⟩ later.made) :
    injector.Accounts [⟨key, supplied.entries, .ok found.service⟩] later
      (keep key binding found last) where
  recorded := noted.calls
  stays := (noted.grows binding uncached found).cached
  once other singleton := by
    have count : successes other [⟨key, supplied.entries, .ok found.service⟩] =
        if other = key then 1 else 0 := by
      simp [successes, List.countP_cons, @eq_comm _ other]
    rw [count, get?_keep, noted.cached]
    by_cases known : other = key <;> simp [known, uncached]
  handed dependency part member singleton := by
    rw [handovers_singleton] at member
    have cached := cached_of_fits fits member singleton
    exact (noted.grows binding uncached found).cached dependency part cached
  kept making member singleton := by
    obtain rfl : making = ⟨key, supplied.entries, found.service⟩ := by
      simpa using member
    refine ⟨later.made, ?_⟩
    rw [get?_keep, if_pos rfl, ← same]

end Accounts

theorem accounting_lawful (injector : Injector σ ω) :
    injector.accounting.Lawful injector.recorded := by
  constructor
  case prebuilt =>
    intro key binding service state bound provider _ singleton
    obtain ⟨plain, known, rfl⟩ := exists_of_watched bound
    rw [isSingleton_of_prebuilt known (Provider.eq_prebuilt_of_watched provider)] at singleton
    cases singleton
  case kept => exact fun _ _ _ cached _ => cached
  case refused =>
    intro key binding dependencies scope make supplied error later last bound provider fits
      selective call
    obtain ⟨plain, make, known, made, rfl⟩ := exists_factory_of_watched bound provider
    have noted := noted_of_construct call
    have accounts := Accounts.called fits rfl noted (by simp [Except.map])
    exact ⟨selective.of_eq noted.cached, _, accounts⟩
  case handed =>
    intro key binding dependencies make supplied found later last bound provider fits selective
      call
    obtain ⟨plain, make, known, made, rfl⟩ := exists_factory_of_watched bound provider
    have transient : injector.isSingleton key = false := isSingleton_of_factory known made
    have noted := noted_of_construct call
    have accounts := Accounts.called fits rfl noted (by simp [Except.map, transient])
    refine ⟨selective.of_eq noted.cached, ⟨_, accounts⟩, ?_⟩
    intro singleton
    cases transient.symm.trans singleton
  case stored =>
    intro key binding dependencies make supplied found later last bound provider fits selective
      uncached call
    obtain ⟨plain, make, known, made, rfl⟩ := exists_factory_of_watched bound provider
    have singleton : injector.isSingleton key = true := isSingleton_of_factory known made
    have noted := noted_of_construct call
    have accounts := Accounts.stored fits binding uncached noted (eq_of_construct call)
    refine ⟨(selective.of_eq noted.cached).keep singleton, ⟨_, accounts⟩, ?_⟩
    intro _
    rw [get?_keep, if_pos rfl]

end FsmWorkbench.Injector
