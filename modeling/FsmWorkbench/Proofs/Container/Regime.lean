import FsmWorkbench.Proofs.Container.Resolution

set_option autoImplicit false

namespace FsmWorkbench.Injector

variable {σ ω : Type}

structure Regime (σ ω : Type) where
  keeps : ContainerState σ ω → Prop
  leads : ContainerState σ ω → ContainerState σ ω → Prop
  -- First comes the state since which the instance has been on its way.
  good : ContainerState σ ω → ServiceKey → Instance σ → ContainerState σ ω → Prop
  refl : ∀ state, leads state state
  trans : ∀ {first second third}, leads first second → leads second third → leads first third
  stays : ∀ {origin first second key found}, leads first second → good origin key found first →
    good origin key found second
  since : ∀ {origin first second key found}, leads origin first → good first key found second →
    good origin key found second

namespace Regime

structure Sound (regime : Regime σ ω) (key : ServiceKey) (state : ContainerState σ ω)
    (result : Result σ ω) : Prop where
  keeps : regime.keeps result.2
  leads : regime.leads state result.2
  good : ∀ found, result.1 = .ok found → regime.good state key found result.2

theorem Sound.of_ok {regime : Regime σ ω} {key : ServiceKey} {state last : ContainerState σ ω}
    {found : Instance σ} (keeps : regime.keeps last) (leads : regime.leads state last)
    (good : regime.good state key found last) : regime.Sound key state (.ok found, last) := by
  refine ⟨keeps, leads, ?_⟩
  rintro _ ⟨rfl⟩
  exact good

theorem Sound.of_error {regime : Regime σ ω} {key : ServiceKey} {state last : ContainerState σ ω}
    {error : ResolveError} (keeps : regime.keeps last) (leads : regime.leads state last) :
    regime.Sound key state (.error error, last) :=
  ⟨keeps, leads, by simp⟩

structure Fits (regime : Regime σ ω) (origin : ContainerState σ ω) (keys : List ServiceKey)
    (supplied : Table ServiceKey (Instance σ)) (state : ContainerState σ ω) : Prop where
  exact : ∀ key, (supplied.get? key).isSome = true ↔ key ∈ keys
  good : ∀ key found, supplied.get? key = some found → regime.good origin key found state

theorem Fits.empty (regime : Regime σ ω) (origin state : ContainerState σ ω) :
    regime.Fits origin [] .empty state where
  exact := by simp
  good := by simp

theorem Fits.put {regime : Regime σ ω} {keys : List ServiceKey}
    {supplied : Table ServiceKey (Instance σ)} {origin state later : ContainerState σ ω}
    {key : ServiceKey} {found : Instance σ} (fits : regime.Fits origin keys supplied state)
    (led : regime.leads origin state) (leads : regime.leads state later)
    (good : regime.good state key found later) :
    regime.Fits origin (keys ++ [key]) (supplied.put key found) later where
  exact other := by
    rw [Table.get?_put, List.mem_append, List.mem_singleton, ← fits.exact other]
    split <;> simp_all
  good other instance_ known := by
    rw [Table.get?_put] at known
    split at known
    · next same =>
      obtain rfl := Option.some.inj known
      exact same ▸ regime.since led good
    · exact regime.stays leads (fits.good other instance_ known)

variable {regime : Regime σ ω} {resolve : ServiceKey → ContainerState σ ω → Result σ ω}

structure Supplies (regime : Regime σ ω)
    (resolve : ServiceKey → ContainerState σ ω → Result σ ω) (keys seen : List ServiceKey)
    (origin : ContainerState σ ω)
    (result : Except ResolveError (Table ServiceKey (Instance σ)) × ContainerState σ ω) :
    Prop where
  keeps : regime.keeps result.2
  leads : regime.leads origin result.2
  fits : ∀ supplied, result.1 = .ok supplied →
    regime.Fits origin (seen ++ keys) supplied result.2
  blamed : ∀ error, result.1 = .error error →
    ∃ key ∈ keys, ∃ between, regime.keeps between ∧ (resolve key between).1 = .error error

theorem supplyAll_supplies {keys : List ServiceKey}
    (sound : ∀ key ∈ keys, ∀ state, regime.keeps state →
      regime.Sound key state (resolve key state))
    {seen : List ServiceKey} {supplied : Table ServiceKey (Instance σ)}
    {origin state : ContainerState σ ω} (kept : regime.keeps state)
    (led : regime.leads origin state) (fits : regime.Fits origin seen supplied state) :
    regime.Supplies resolve keys seen origin (supplyAll resolve keys supplied state) := by
  induction keys generalizing seen supplied state with
  | nil =>
    refine ⟨kept, led, ?_, by simp [supplyAll]⟩
    intro same done
    obtain rfl := Except.ok.inj done
    simpa [supplyAll] using fits
  | cons key keys ih =>
    rw [List.forall_mem_cons] at sound
    have first := sound.1 state kept
    rw [supplyAll]
    split
    · next error next resolved =>
      rw [resolved] at first
      refine ⟨first.keeps, regime.trans led first.leads, by simp, ?_⟩
      rintro _ ⟨rfl⟩
      exact ⟨key, List.mem_cons_self, state, kept, by rw [resolved]⟩
    · next found next resolved =>
      rw [resolved] at first
      have rest := ih sound.2 first.keeps (regime.trans led first.leads)
        (fits.put led first.leads (first.good found rfl))
      refine ⟨rest.keeps, rest.leads, ?_, ?_⟩
      · intro supplied done
        have all := rest.fits supplied done
        rwa [List.append_assoc, List.singleton_append] at all
      · intro error failed
        obtain ⟨blamed, member, between⟩ := rest.blamed error failed
        exact ⟨blamed, List.mem_cons_of_mem _ member, between⟩

-- The injector lives by a regime if what it hands out is good, and every call of a factory with
-- what fits leads on from where the supplies were first asked for.
structure Lawful (regime : Regime σ ω) (injector : Injector σ ω) : Prop where
  prebuilt : ∀ {key binding service state}, injector.binding? key = some binding →
    binding.provider = .prebuilt service → regime.keeps state →
    regime.good state key ⟨.prebuilt key, service, []⟩ state
  kept : ∀ {key binding dependencies make found state}, injector.binding? key = some binding →
    binding.provider = .factory dependencies .singleton make → regime.keeps state →
    state.cached.get? key = some found → regime.good state key found state
  refused : ∀ {key binding dependencies scope make supplied error state later last},
    injector.binding? key = some binding →
    binding.provider = .factory dependencies scope make →
    regime.leads state later → regime.Fits state dependencies supplied later →
    regime.keeps later → construct make ⟨key, supplied⟩ later = (.error error, last) →
    regime.keeps last ∧ regime.leads state last
  handed : ∀ {key binding dependencies make supplied made state later last},
    injector.binding? key = some binding →
    binding.provider = .factory dependencies .transient make →
    regime.leads state later → regime.Fits state dependencies supplied later →
    regime.keeps later → construct make ⟨key, supplied⟩ later = (.ok made, last) →
    regime.keeps last ∧ regime.leads state last ∧ regime.good state key made last
  stored : ∀ {key binding dependencies make supplied made state later last},
    injector.binding? key = some binding →
    binding.provider = .factory dependencies .singleton make →
    regime.leads state later → regime.Fits state dependencies supplied later →
    regime.keeps later → later.cached.get? key = none →
    construct make ⟨key, supplied⟩ later = (.ok made, last) →
    regime.keeps (keep key binding made last) ∧
      regime.leads state (keep key binding made last) ∧
      regime.good state key made (keep key binding made last)

namespace Lawful

variable {injector : Injector σ ω}

theorem sound (lawful : regime.Lawful injector) (path : List ServiceKey) :
    ∀ key state, regime.keeps state →
      regime.Sound key state (injector.resolveOn path key state) := by
  induction path using path_induction injector with
  | step path ih =>
  intro key state kept
  have supply {binding dependencies scope make result}
      (needs : Needs injector path key state binding dependencies scope make)
      (supply : supplyAll (fun next => injector.resolveOn (path ++ [key]) next) dependencies .empty
        state = result) :
      regime.Supplies (fun next => injector.resolveOn (path ++ [key]) next) dependencies []
        state result := by
    rw [← supply]
    exact supplyAll_supplies (fun next _ => ih key binding needs.bound needs.fresh next) kept
      (regime.refl state) (.empty regime state state)
  have step := injector.resolveOn_step path key state
  generalize injector.resolveOn path key state = result at step
  cases step with
  | missing | cyclic => exact .of_error kept (regime.refl state)
  | prebuilt bound provider =>
    exact .of_ok kept (regime.refl state) (lawful.prebuilt bound provider kept)
  | kept bound provider cached =>
    exact .of_ok kept (regime.refl state) (lawful.kept bound provider kept cached)
  | unsupplied needs supplied =>
    have all := supply needs supplied
    exact .of_error all.keeps all.leads
  | met needs supplied cached =>
    have all := supply needs supplied
    exact .of_ok all.keeps all.leads
      (regime.since all.leads (lawful.kept needs.bound needs.provider all.keeps cached))
  | refused needs supplied unmet call =>
    have all := supply needs supplied
    obtain ⟨keeps, leads⟩ :=
      lawful.refused needs.bound needs.provider all.leads (all.fits _ rfl) all.keeps call
    exact .of_error keeps leads
  | handed needs supplied call =>
    have all := supply needs supplied
    obtain ⟨keeps, leads, good⟩ :=
      lawful.handed needs.bound needs.provider all.leads (all.fits _ rfl) all.keeps call
    exact .of_ok keeps leads good
  | stored needs supplied unmet call =>
    have all := supply needs supplied
    obtain ⟨keeps, leads, good⟩ :=
      lawful.stored needs.bound needs.provider all.leads (all.fits _ rfl) all.keeps unmet call
    exact .of_ok keeps leads good

theorem keeps_after (lawful : regime.Lawful injector)
    (closes : ∀ state, regime.keeps state → regime.keeps (Injector.shutdown state))
    {state : ContainerState σ ω} (kept : regime.keeps state) (history : List Operation) :
    regime.keeps (injector.after state history) := by
  induction history generalizing state with
  | nil => exact kept
  | cons operation history ih =>
    apply ih
    cases operation with
    | resolve key => exact (lawful.sound [] key state kept).keeps
    | shutdown => exact closes state kept

end Lawful

end Regime

end FsmWorkbench.Injector
