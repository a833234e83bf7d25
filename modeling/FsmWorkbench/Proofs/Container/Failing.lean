import FsmWorkbench.Proofs.Container.Accounting
import FsmWorkbench.Proofs.Container.Ownership

set_option autoImplicit false

namespace FsmWorkbench.Injector

variable {σ ω : Type} {injector : Injector σ ω}

-- What is cached for the services on a path stays as it is.
def sparing (path : List ServiceKey) : Discipline σ ω where
  keeps _ := True
  leads first second := ∀ key ∈ path, second.cached.get? key = first.cached.get? key
  good _ _ _ := True
  refl _ _ _ := rfl
  trans left right key member := (right key member).trans (left key member)
  stays _ good := good

theorem sparing_supplyAll {path : List ServiceKey}
    {resolve : ServiceKey → ContainerState σ ω → Result σ ω}
    (spares : ∀ key state, (sparing path).leads state (resolve key state).2)
    (keys : List ServiceKey) (state : ContainerState σ ω) :
    (sparing path).leads state (supplyAll resolve keys .empty state).2 := by
  have sound (key : ServiceKey) (state : ContainerState σ ω) :
      (sparing path).regime.Sound key state (resolve key state) :=
    ⟨trivial, spares key state, fun _ _ => trivial⟩
  have supplies := Regime.supplyAll_supplies (fun key (_ : key ∈ keys) state _ => sound key state)
    trivial (fun _ _ => rfl) (.empty (sparing path).regime state state)
  exact supplies.leads

-- The services on the path are not made before those that are resolved for them.
theorem sparing_resolveOn (injector : Injector σ ω) (path : List ServiceKey) :
    ∀ key state, (sparing path).leads state (injector.resolveOn path key state).2 := by
  induction path using path_induction injector with
  | step path ih =>
  intro key state other entered
  have supplied {binding dependencies scope make outcome later}
      (needs : Needs injector path key state binding dependencies scope make)
      (supply : supplyAll (fun next => injector.resolveOn (path ++ [key]) next) dependencies .empty
        state = (outcome, later)) : later.cached.get? other = state.cached.get? other := by
    have spared := sparing_supplyAll (ih key binding needs.bound needs.fresh) dependencies state
    rw [supply] at spared
    exact spared other (List.mem_append_left _ entered)
  have step := injector.resolveOn_step path key state
  generalize injector.resolveOn path key state = result at step
  cases step with
  | missing | prebuilt | kept | cyclic => rfl
  | unsupplied needs supply | met needs supply => exact supplied needs supply
  | refused needs supply _ call | handed needs supply call =>
    rw [(unchanged_of_construct call).1]
    exact supplied needs supply
  | stored needs supply _ call =>
    have apart : other ≠ key := by
      rintro rfl
      exact needs.fresh entered
    rw [get?_keep, if_neg apart, (unchanged_of_construct call).1]
    exact supplied needs supply

section Error

variable {path : List ServiceKey} {key : ServiceKey} {state last : ContainerState σ ω}
  {error : ResolveError}

theorem get?_of_supplied {dependencies : List ServiceKey}
    {outcome : Except ResolveError (Table ServiceKey (Instance σ))}
    (supply : supplyAll (fun next => injector.resolveOn (path ++ [key]) next) dependencies .empty
      state = (outcome, last)) : last.cached.get? key = state.cached.get? key := by
  have spared := sparing_supplyAll (sparing_resolveOn injector (path ++ [key])) dependencies state
  rw [supply] at spared
  exact spared key (List.mem_append_right _ List.mem_cons_self)

theorem get?_of_error (failed : injector.resolveOn path key state = (.error error, last)) :
    last.cached.get? key = state.cached.get? key := by
  have step := injector.resolveOn_step path key state
  rw [failed] at step
  cases step with
  | missing | cyclic => rfl
  | unsupplied _ supply => exact get?_of_supplied supply
  | refused _ supply _ call =>
    rw [(unchanged_of_construct call).1]
    exact get?_of_supplied supply

-- What is cached is given out, so it was not cached before either.
theorem uncached_of_error (selective : injector.Selective state)
    (failed : injector.resolveOn path key state = (.error error, last)) :
    last.cached.get? key = none := by
  rw [get?_of_error failed]
  cases cached : state.cached.get? key with
  | none => rfl
  | some found =>
    obtain ⟨binding, dependencies, make, bound, provider⟩ :=
      exists_of_isSingleton (selective key found cached)
    have given : injector.resolveOn path key state = (.ok found, state) :=
      Step.resolveOn_eq (.kept bound provider cached)
    rw [given] at failed
    cases failed

end Error

section Recorded

variable {state : ContainerState σ (ω × List (Call σ))}

theorem exists_recorded_of_resolve {key : ServiceKey}
    {outcome : Except ResolveError (Instance σ)} {later : ContainerState σ ω}
    (resolved : injector.resolve key state.unwatched = (outcome, later)) :
    ∃ last, injector.recorded.resolve key state = (outcome, last) ∧ last.unwatched = later := by
  rw [resolve, resolveOn_unwatched unobtrusive_recorded] at resolved
  obtain ⟨same, rfl⟩ := Prod.mk.inj resolved
  exact ⟨_, Prod.ext same rfl, rfl⟩

theorem accounts_after (selective : injector.Selective state) (keys : List ServiceKey) :
    ∃ calls, injector.Accounts calls state
      (injector.recorded.after state (keys.map .resolve)) :=
  (accounting_lawful injector).leads_after selective keys

theorem cached_of_answers (selective : injector.Selective state) {keys : List ServiceKey}
    {key : ServiceKey} {found : Instance σ}
    (given : (key, found) ∈ injector.recorded.answers state (keys.map .resolve))
    (singleton : injector.isSingleton key = true) :
    (injector.recorded.after state (keys.map .resolve)).cached.get? key = some found := by
  induction keys generalizing state with
  | nil => cases given
  | cons first keys ih =>
    have sound := (accounting_lawful injector).sound [] first state selective
    rw [List.map_cons, answers, List.mem_append] at given
    rcases given with now | later
    · obtain ⟨rfl, answer⟩ := mem_answered.1 now
      obtain ⟨calls, accounts⟩ := accounts_after sound.keeps keys
      exact accounts.stays first found (sound.good found answer singleton)
    · exact ih sound.keeps later

end Recorded

theorem failure_exact (set : BindingSet σ ω) (world : ω) (events : List Event)
    (history : List Operation) :
    let state := set.build.after (.start world events) history
    let record := set.build.recorded.after (.start (world, []) events) history
    record.unwatched = state ∧
      (∀ key error failed, set.build.resolve key state = (.error error, failed) →
        (∀ other found, state.cached.get? other = some found →
          failed.cached.get? other = some found) ∧
        failed.cached.get? key = none ∧
        ∃ last calls, set.build.recorded.resolve key record = (.error error, last) ∧
          last.unwatched = failed ∧ last.world.2 = record.world.2 ++ calls ∧
          ∀ other, (state.cached.get? other = none ∧
              (failed.cached.get? other).isSome = true) ↔
            set.build.isSingleton other = true ∧ 0 < successes other calls) ∧
      ∀ keys : List ServiceKey,
        let later := set.build.after state (keys.map .resolve)
        let last := set.build.recorded.after record (keys.map .resolve)
        last.unwatched = later ∧
          (∃ calls, set.build.Accounts calls record last ∧
            ∀ dependency part, (dependency, part) ∈ handovers calls →
              ∀ binding, set.build.binding? dependency = some binding →
                binding.scope = .singleton →
                set.build.resolve dependency later = (.ok part, later)) ∧
          ∀ key found, (key, found) ∈ set.build.answers state (keys.map .resolve) →
            set.build.isSingleton key = true → later.cached.get? key = some found := by
  intro state record
  have unwatched : record.unwatched = state :=
    (after_unwatched unobtrusive_recorded set.build _ history).symm
  have selective : set.build.Selective record := by
    apply (accounting_lawful set.build).keeps_after selective_shutdown
    intro key found cached
    cases cached
  have custody : set.build.Custody record :=
    (custody_lawful set.build).keeps_after custody_shutdown (.start set.build world events) history
  rw [← unwatched]
  refine ⟨rfl, ?_, ?_⟩
  · intro key error failed outcome
    obtain ⟨last, recorded, rfl⟩ := exists_recorded_of_resolve outcome
    have sound : set.build.accounting.Sound key record (set.build.recorded.resolve key record) :=
      (accounting_lawful set.build).sound [] key record selective
    rw [recorded] at sound
    obtain ⟨calls, accounts⟩ := sound.leads
    exact ⟨accounts.stays, uncached_of_error selective outcome, last, calls, recorded, rfl,
      accounts.recorded, fun _ => accounts.newly_iff sound.keeps⟩
  · intro keys later last
    have same : last.unwatched = later :=
      (after_unwatched unobtrusive_recorded set.build record (keys.map .resolve)).symm
    have custody : set.build.Custody last :=
      (custody_lawful set.build).keeps_after custody_shutdown custody (keys.map .resolve)
    obtain ⟨calls, accounts⟩ := accounts_after selective keys
    rw [← same]
    refine ⟨rfl, ⟨calls, accounts, ?_⟩, ?_⟩
    · intro dependency part handed binding bound singleton
      have handover : (dependency, part) ∈ handovers last.world.2 := by
        rw [accounts.recorded, handovers_append]
        exact List.mem_append_right _ handed
      exact custody.resolve_eq (custody.issued _ handover) (accounts.handed dependency part handed)
        bound singleton
    · intro key found given singleton
      rw [answers_recorded] at given
      exact cached_of_answers selective given singleton

def lampSet : BindingSet String Nat := .ofList "lamp"
  [(⟨"Bulb"⟩, ⟨"Bulb", .factory [] .singleton fun _ world => ⟨.ok "bulb", world, []⟩⟩),
    (⟨"Lamp"⟩, ⟨"Lamp", .factory [⟨"Bulb"⟩] .singleton fun _ world =>
      ⟨if world = 0 then .error (.construction ⟨"Lamp"⟩ "no power") else .ok "lamp", world + 1,
        []⟩⟩)]

def unlit : ContainerState String Nat :=
  ⟨Table.empty.put ⟨"Bulb"⟩ ⟨.made 0, "bulb", []⟩, [⟨"Bulb"⟩], 1, 1,
    [.constructed ⟨"Bulb"⟩ "Bulb"]⟩

theorem resolve_lamp :
    lampSet.build.resolve ⟨"Lamp"⟩ (.start 0 []) =
      (.error (.construction ⟨"Lamp"⟩ "no power"), unlit) := by
  have bulb : lampSet.build.resolveOn [⟨"Lamp"⟩] ⟨"Bulb"⟩ (.start 0 []) = _ :=
    resolveOn_factory rfl rfl [⟨"Lamp"⟩] _
  have lamp : lampSet.build.resolve ⟨"Lamp"⟩ (.start 0 []) = _ := resolveOn_factory rfl rfl [] _
  simp only [List.nil_append, supplyAll, bulb] at lamp
  exact lamp

theorem resolve_lamp_unlit :
    ∃ lit, lampSet.build.resolve ⟨"Lamp"⟩ unlit =
        (.ok ⟨.made 1, "lamp", [(⟨"Bulb"⟩, .made 0)]⟩, lit) ∧
      lit.cached.get? ⟨"Bulb"⟩ = some ⟨.made 0, "bulb", []⟩ := by
  have bulb : lampSet.build.resolveOn [⟨"Lamp"⟩] ⟨"Bulb"⟩ unlit = _ :=
    resolveOn_factory rfl rfl [⟨"Lamp"⟩] _
  have lamp : lampSet.build.resolve ⟨"Lamp"⟩ unlit = _ := resolveOn_factory rfl rfl [] _
  simp only [List.nil_append, supplyAll, bulb] at lamp
  exact ⟨_, lamp, rfl⟩

-- The lamp that works has the bulb that was made for the one that did not.
theorem failure_exact_lamp :
    let attempts : List Operation := [.resolve ⟨"Lamp"⟩, .resolve ⟨"Lamp"⟩]
    lampSet.build.resolve ⟨"Lamp"⟩ (.start 0 []) =
        (.error (.construction ⟨"Lamp"⟩ "no power"), unlit) ∧
      unlit.cached.get? ⟨"Lamp"⟩ = none ∧
      (lampSet.build.after (.start 0 []) attempts).cached.get? ⟨"Lamp"⟩ =
        some ⟨.made 1, "lamp", [(⟨"Bulb"⟩, .made 0)]⟩ ∧
      successes ⟨"Bulb"⟩
        (lampSet.build.recorded.after (.start (0, []) []) attempts).world.2 = 1 := by
  intro attempts
  obtain ⟨lit, lights, bulb⟩ := resolve_lamp_unlit
  obtain ⟨-, fails, retried⟩ := failure_exact lampSet 0 [] []
  obtain ⟨-, unlit, -⟩ := fails _ _ _ resolve_lamp
  obtain ⟨same, ⟨calls, accounts, -⟩, cached⟩ := retried [⟨"Lamp"⟩, ⟨"Lamp"⟩]
  have after : lampSet.build.after (.start 0 []) attempts = lit := by
    simp [attempts, perform, resolve_lamp, lights]
  refine ⟨resolve_lamp, unlit, cached _ _ ?_ rfl, ?_⟩
  · simp [answers, answered, perform, resolve_lamp, lights, Except.toOption]
  · have now : (lampSet.build.recorded.after (.start (0, []) []) attempts).cached.get? ⟨"Bulb"⟩ =
        some ⟨.made 0, "bulb", []⟩ := by
      rw [← bulb, ← after]
      exact congrArg (fun state => state.cached.get? ⟨"Bulb"⟩) same
    have once : 0 + successes ⟨"Bulb"⟩ calls = Bool.toNat (Option.isSome _) :=
      accounts.once ⟨"Bulb"⟩ rfl
    have all : (lampSet.build.recorded.after (.start (0, []) []) attempts).world.2 = calls :=
      accounts.recorded
    rw [all, ← Nat.zero_add (successes _ calls), once]
    exact congrArg (fun found => found.isSome.toNat) now

end FsmWorkbench.Injector
