import FsmWorkbench.Proofs.Container.Regime

set_option autoImplicit false

namespace FsmWorkbench.Injector

variable {σ ω : Type}

-- A discipline of states: what they keep, how one leads to another, and which instances are good
-- for a key from some state on.
structure Discipline (σ ω : Type) where
  keeps : ContainerState σ ω → Prop
  leads : ContainerState σ ω → ContainerState σ ω → Prop
  good : ServiceKey → Instance σ → ContainerState σ ω → Prop
  refl : ∀ state, leads state state
  trans : ∀ {first second third}, leads first second → leads second third → leads first third
  stays : ∀ {first second key found}, leads first second → good key found first →
    good key found second

namespace Discipline

def regime (discipline : Discipline σ ω) : Regime σ ω where
  keeps := discipline.keeps
  leads := discipline.leads
  good _ := discipline.good
  refl := discipline.refl
  trans := discipline.trans
  stays := discipline.stays
  since _ good := good

structure Sound (discipline : Discipline σ ω) (key : ServiceKey) (state : ContainerState σ ω)
    (result : Result σ ω) : Prop where
  keeps : discipline.keeps result.2
  leads : discipline.leads state result.2
  good : ∀ found, result.1 = .ok found → discipline.good key found result.2

-- What a factory is handed: an instance for each of the keys and nothing else, all of them good.
structure Fits (discipline : Discipline σ ω) (keys : List ServiceKey)
    (supplied : Table ServiceKey (Instance σ)) (state : ContainerState σ ω) : Prop where
  exact : ∀ key, (supplied.get? key).isSome = true ↔ key ∈ keys
  good : ∀ key found, supplied.get? key = some found → discipline.good key found state

variable {discipline : Discipline σ ω}

theorem Fits.of_regime {origin state : ContainerState σ ω} {keys : List ServiceKey}
    {supplied : Table ServiceKey (Instance σ)}
    (fits : discipline.regime.Fits origin keys supplied state) :
    discipline.Fits keys supplied state :=
  ⟨fits.exact, fits.good⟩

structure Supplies (discipline : Discipline σ ω)
    (resolve : ServiceKey → ContainerState σ ω → Result σ ω) (keys seen : List ServiceKey)
    (state : ContainerState σ ω)
    (result : Except ResolveError (Table ServiceKey (Instance σ)) × ContainerState σ ω) :
    Prop where
  keeps : discipline.keeps result.2
  leads : discipline.leads state result.2
  fits : ∀ supplied, result.1 = .ok supplied → discipline.Fits (seen ++ keys) supplied result.2
  blamed : ∀ error, result.1 = .error error →
    ∃ key ∈ keys, ∃ between, discipline.keeps between ∧ (resolve key between).1 = .error error

-- The injector lives by a discipline if what it hands out is good, and every call of a factory with
-- what fits leads on.
structure Lawful (discipline : Discipline σ ω) (injector : Injector σ ω) : Prop where
  prebuilt : ∀ {key binding service state}, injector.binding? key = some binding →
    binding.provider = .prebuilt service → discipline.keeps state →
    discipline.good key ⟨.prebuilt key, service, []⟩ state
  kept : ∀ {key binding dependencies make found state}, injector.binding? key = some binding →
    binding.provider = .factory dependencies .singleton make → discipline.keeps state →
    state.cached.get? key = some found → discipline.good key found state
  refused : ∀ {key binding dependencies scope make supplied error later last},
    injector.binding? key = some binding →
    binding.provider = .factory dependencies scope make →
    discipline.Fits dependencies supplied later → discipline.keeps later →
    construct make ⟨key, supplied⟩ later = (.error error, last) →
    discipline.keeps last ∧ discipline.leads later last
  handed : ∀ {key binding dependencies make supplied made later last},
    injector.binding? key = some binding →
    binding.provider = .factory dependencies .transient make →
    discipline.Fits dependencies supplied later → discipline.keeps later →
    construct make ⟨key, supplied⟩ later = (.ok made, last) →
    discipline.keeps last ∧ discipline.leads later last ∧ discipline.good key made last
  stored : ∀ {key binding dependencies make supplied made later last},
    injector.binding? key = some binding →
    binding.provider = .factory dependencies .singleton make →
    discipline.Fits dependencies supplied later → discipline.keeps later →
    later.cached.get? key = none →
    construct make ⟨key, supplied⟩ later = (.ok made, last) →
    discipline.keeps (keep key binding made last) ∧
      discipline.leads later (keep key binding made last) ∧
      discipline.good key made (keep key binding made last)

namespace Lawful

variable {injector : Injector σ ω}

-- Where the supplies were first asked for leads to where they are at hand, and from there on.
theorem regime (lawful : discipline.Lawful injector) : discipline.regime.Lawful injector where
  prebuilt := lawful.prebuilt
  kept := lawful.kept
  refused bound provider led fits keeps call := by
    obtain ⟨keeps, leads⟩ := lawful.refused bound provider (.of_regime fits) keeps call
    exact ⟨keeps, discipline.trans led leads⟩
  handed bound provider led fits keeps call := by
    obtain ⟨keeps, leads, good⟩ := lawful.handed bound provider (.of_regime fits) keeps call
    exact ⟨keeps, discipline.trans led leads, good⟩
  stored bound provider led fits keeps unmet call := by
    obtain ⟨keeps, leads, good⟩ :=
      lawful.stored bound provider (.of_regime fits) keeps unmet call
    exact ⟨keeps, discipline.trans led leads, good⟩

theorem sound (lawful : discipline.Lawful injector) (path : List ServiceKey) (key : ServiceKey)
    (state : ContainerState σ ω) (kept : discipline.keeps state) :
    discipline.Sound key state (injector.resolveOn path key state) := by
  obtain ⟨keeps, leads, good⟩ := lawful.regime.sound path key state kept
  exact ⟨keeps, leads, good⟩

theorem supplies (lawful : discipline.Lawful injector) (path keys : List ServiceKey)
    {state : ContainerState σ ω} (kept : discipline.keeps state) :
    discipline.Supplies (fun next => injector.resolveOn path next) keys [] state
      (supplyAll (fun next => injector.resolveOn path next) keys .empty state) := by
  obtain ⟨keeps, leads, fits, blamed⟩ :=
    Regime.supplyAll_supplies (fun next _ => lawful.regime.sound path next) kept
      (discipline.refl state) (.empty discipline.regime state state)
  exact ⟨keeps, leads, fun supplied done => .of_regime (fits supplied done), blamed⟩

theorem keeps_after (lawful : discipline.Lawful injector)
    (closes : ∀ state, discipline.keeps state → discipline.keeps (Injector.shutdown state))
    {state : ContainerState σ ω} (kept : discipline.keeps state) (history : List Operation) :
    discipline.keeps (injector.after state history) :=
  lawful.regime.keeps_after closes kept history

theorem leads_after (lawful : discipline.Lawful injector) {state : ContainerState σ ω}
    (kept : discipline.keeps state) (keys : List ServiceKey) :
    discipline.leads state (injector.after state (keys.map .resolve)) := by
  induction keys generalizing state with
  | nil => exact discipline.refl state
  | cons key keys ih =>
    have sound := lawful.sound [] key state kept
    exact discipline.trans sound.leads (ih sound.keeps)

end Lawful

section Always

variable {good : ServiceKey → Instance σ → Prop} {injector : Injector σ ω}

def always (good : ServiceKey → Instance σ → Prop) : Discipline σ ω where
  keeps state := ∀ key found, state.cached.get? key = some found → good key found
  leads _ _ := True
  good key found _ := good key found
  refl _ := trivial
  trans _ _ := trivial
  stays _ good := good

theorem always_lawful
    (prebuilt : ∀ {key binding service}, injector.binding? key = some binding →
      binding.provider = .prebuilt service → good key ⟨.prebuilt key, service, []⟩)
    (made : ∀ {key binding dependencies scope make supplied found later last},
      injector.binding? key = some binding →
      binding.provider = .factory dependencies scope make →
      (always good).Fits dependencies supplied later →
      construct make ⟨key, supplied⟩ later = (.ok found, last) → good key found) :
    (always good).Lawful injector := by
  have called {make supplies outcome} {later last : ContainerState σ ω}
      (kept : (always good).keeps later)
      (call : construct make supplies later = (outcome, last)) : (always good).keeps last := by
    intro key found cached
    exact kept key found ((unchanged_of_construct call).1 ▸ cached)
  constructor
  case prebuilt => exact fun bound provider _ => prebuilt bound provider
  case kept => exact fun _ _ kept cached => kept _ _ cached
  case refused => exact fun _ _ _ kept call => ⟨called kept call, trivial⟩
  case handed =>
    exact fun bound provider fits kept call =>
      ⟨called kept call, trivial, made bound provider fits call⟩
  case stored =>
    intro key binding dependencies make supplied found later last bound provider fits kept _ call
    have new := made bound provider fits call
    refine ⟨?_, trivial, new⟩
    intro other another cached
    have put : (last.cached.put key found).get? other = some another := cached
    rw [Table.get?_put] at put
    split at put
    · next same =>
      obtain rfl := Option.some.inj put
      exact same ▸ new
    · exact called kept call other another put

theorem always_shutdown (state : ContainerState σ ω) (kept : (always good).keeps state) :
    (always good).keeps (Injector.shutdown state) := by
  intro key found cached
  rw [get?_shutdown] at cached
  split at cached
  · cases cached
  · exact kept key found cached

theorem always_after (lawful : (always good).Lawful injector) (world : ω) (events : List Event)
    (history : List Operation) :
    (always good).keeps (injector.after (.start world events) history) := by
  apply lawful.keeps_after always_shutdown
  intro key found cached
  cases cached

end Always

end Discipline

end FsmWorkbench.Injector
