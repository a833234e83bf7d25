import FsmWorkbench.Proofs.Container.Watching
import FsmWorkbench.Proofs.Services.Runtime

set_option autoImplicit false

namespace FsmWorkbench

variable {σ ω : Type}

def Factory.tallied (key : ServiceKey) (make : Factory σ ω) : Factory σ (ω × List ServiceKey) :=
  fun supplies world =>
    let attempt := make supplies world.1
    let tally :=
      match attempt.outcome with
      | .ok _ => world.2 ++ [key]
      | .error _ => world.2
    ⟨attempt.outcome, (attempt.world, tally), attempt.notes⟩

def Provider.tallied (key : ServiceKey) : Provider σ ω → Provider σ (ω × List ServiceKey)
  | .prebuilt service => .prebuilt service
  | .factory dependencies scope make => .factory dependencies scope (Factory.tallied key make)

def Binding.tallied (key : ServiceKey) (binding : Binding σ ω) :
    Binding σ (ω × List ServiceKey) :=
  ⟨binding.implementation, binding.provider.tallied key⟩

def ContainerState.bare (state : ContainerState σ (ω × List ServiceKey)) : ContainerState σ ω :=
  ⟨state.cached, state.constructed, state.made, state.world.1, state.events⟩

namespace Injector

open Relation

def tallied (injector : Injector σ ω) : Injector σ (ω × List ServiceKey) where
  name := injector.name
  bindings.entries := injector.bindings.entries.map fun entry => (entry.1, entry.2.tallied entry.1)
  bindings.nodup := by
    rw [List.map_map]
    exact injector.bindings.nodup

variable {injector : Injector σ ω} {key : ServiceKey}

theorem unobtrusive_tallied :
    Watch.Unobtrusive (Factory.tallied : Watch σ ω (List ServiceKey)) :=
  fun _ _ _ _ => rfl

theorem tallied_eq (injector : Injector σ ω) :
    injector.tallied = injector.watched Factory.tallied := rfl

theorem exists_of_tallied {binding : Binding σ (ω × List ServiceKey)} {scope : Scope}
    {dependencies : List ServiceKey} {tally : Factory σ (ω × List ServiceKey)}
    (bound : injector.tallied.binding? key = some binding)
    (provider : binding.provider = .factory dependencies scope tally) :
    ∃ make, tally = Factory.tallied key make := by
  rw [tallied_eq] at bound
  obtain ⟨-, make, -, -, same⟩ := exists_factory_of_watched bound provider
  exact ⟨make, same⟩

theorem isSingleton_tallied (injector : Injector σ ω) (key : ServiceKey) :
    injector.tallied.isSingleton key = injector.isSingleton key :=
  isSingleton_watched Factory.tallied injector key

abbrev Result.bare (result : Result σ (ω × List ServiceKey)) : Result σ ω :=
  (result.1, result.2.bare)

theorem resolveOn_bare (injector : Injector σ ω) (path : List ServiceKey) :
    ∀ key state, injector.resolveOn path key state.bare =
      Result.bare (injector.tallied.resolveOn path key state) :=
  resolveOn_unwatched unobtrusive_tallied injector path

theorem after_bare (injector : Injector σ ω) (state : ContainerState σ (ω × List ServiceKey))
    (history : List Operation) :
    injector.after state.bare history = (injector.tallied.after state history).bare :=
  after_unwatched unobtrusive_tallied injector state history

def Tallies (injector : Injector σ ω) (first second : ContainerState σ (ω × List ServiceKey)) :
    Prop :=
  ∃ added, second.world.2 = first.world.2 ++ added ∧
    second.constructed = first.constructed ++ added.filter injector.isSingleton

theorem Tallies.of_eq {first second : ContainerState σ (ω × List ServiceKey)}
    (world : second.world.2 = first.world.2)
    (constructed : second.constructed = first.constructed) : injector.Tallies first second := by
  refine ⟨[], ?_, ?_⟩
  · rw [world, List.append_nil]
  · rw [constructed, List.filter_nil, List.append_nil]

theorem Tallies.trans {first second third : ContainerState σ (ω × List ServiceKey)}
    (left : injector.Tallies first second) (right : injector.Tallies second third) :
    injector.Tallies first third := by
  obtain ⟨added, tallied, noted⟩ := left
  obtain ⟨more, talliedMore, notedMore⟩ := right
  refine ⟨added ++ more, ?_, ?_⟩
  · rw [talliedMore, tallied, List.append_assoc]
  · rw [notedMore, noted, List.filter_append, List.append_assoc]

theorem tally_construct (make : Factory σ ω) (supplies : Supplies σ)
    (state : ContainerState σ (ω × List ServiceKey)) :
    (construct (Factory.tallied key make) supplies state).2.world.2 =
      match (construct (Factory.tallied key make) supplies state).1 with
      | .ok _ => state.world.2 ++ [key]
      | .error _ => state.world.2 := by
  rw [construct, Factory.tallied]
  dsimp only
  cases (make supplies state.world.1).outcome <;> rfl

def tallying (injector : Injector σ ω) : Discipline σ (ω × List ServiceKey) where
  keeps _ := True
  leads := injector.Tallies
  good _ _ _ := True
  refl _ := .of_eq rfl rfl
  trans := .trans
  stays _ _ := trivial

theorem tallying_lawful (injector : Injector σ ω) : injector.tallying.Lawful injector.tallied := by
  have call {key binding dependencies scope tally supplies result}
      {later : ContainerState σ (ω × List ServiceKey)}
      (bound : injector.tallied.binding? key = some binding)
      (provider : binding.provider = .factory dependencies scope tally)
      (call : construct tally supplies later = result) :
      injector.isSingleton key = decide (scope = .singleton) ∧
        result.2.constructed = later.constructed ∧
        result.2.world.2 = match result.1 with
          | .ok _ => later.world.2 ++ [key]
          | .error _ => later.world.2 := by
    subst call
    have singleton := isSingleton_of_factory bound provider
    rw [isSingleton_tallied] at singleton
    obtain ⟨make, rfl⟩ := exists_of_tallied bound provider
    exact ⟨singleton, (unchanged_of_construct rfl).2, tally_construct make supplies later⟩
  constructor
  case prebuilt => exact fun _ _ _ => trivial
  case kept => exact fun _ _ _ _ => trivial
  case refused =>
    intro key binding dependencies scope tally supplied error later last bound provider _ _ failed
    obtain ⟨-, constructed, tallied⟩ := call bound provider failed
    exact ⟨trivial, .of_eq tallied constructed⟩
  case handed =>
    intro key binding dependencies tally supplied made later last bound provider _ _ done
    obtain ⟨singleton, constructed, tallied⟩ := call bound provider done
    refine ⟨trivial, ⟨[key], tallied, ?_⟩, trivial⟩
    simpa [singleton] using constructed
  case stored =>
    intro key binding dependencies tally supplied made later last bound provider _ _ _ done
    obtain ⟨singleton, constructed, tallied⟩ := call bound provider done
    refine ⟨trivial, ⟨[key], tallied, ?_⟩, trivial⟩
    have noted : (keep key binding made last).constructed = last.constructed ++ [key] := rfl
    rw [noted, constructed]
    simp [singleton]

theorem count_tally_le_one {state later : ContainerState σ (ω × List ServiceKey)}
    (tallies : injector.Tallies state later) (nodup : later.constructed.Nodup)
    (singleton : injector.isSingleton key = true) :
    ∃ added, later.world.2 = state.world.2 ++ added ∧
      state.constructed.count key + added.count key ≤ 1 := by
  obtain ⟨added, tallied, noted⟩ := tallies
  refine ⟨added, tallied, ?_⟩
  have once := List.nodup_iff_count_le_one.1 nodup key
  rwa [noted, List.count_append, List.count_filter singleton] at once

theorem bookkeeping_exact (set : BindingSet σ ω) (world : ω) (events : List Event)
    (history : List Operation) :
    let state := set.build.after (.start world events) history
    let tally := set.build.tallied.after (.start (world, []) events) history
    set.build.Coherent state ∧
      set.build.Closes state ∧
      (∀ (key : ServiceKey) (binding : Binding σ ω) (between : List ServiceKey)
          (first second : Instance σ),
        set.build.binding? key = some binding → binding.scope = .singleton →
        (set.build.resolve key state).1 = .ok first →
        (set.build.resolve key
          (set.build.after (set.build.resolve key state).2 (between.map .resolve))).1 = .ok second →
        second = first) ∧
      tally.bare = state ∧
      (∀ key, set.build.resolve key state = Result.bare (set.build.tallied.resolve key tally)) ∧
      ∀ (keys : List ServiceKey) (key : ServiceKey), set.build.isSingleton key = true →
        ∃ added, (set.build.tallied.after tally (keys.map .resolve)).world.2 =
            tally.world.2 ++ added ∧
          state.constructed.count key + added.count key ≤ 1 := by
  intro state tally
  have coherent : set.build.Coherent state := coherent_after history world events
  have bare : tally.bare = state := (after_bare set.build _ history).symm
  refine ⟨coherent, coherent.closes, ?_, bare, ?_, ?_⟩
  · intro key binding between first second bound singleton once again
    exact eq_of_resolve_again coherent bound singleton between once again
  · intro key
    rw [← bare]
    exact resolveOn_bare set.build [] key tally
  · intro keys key singleton
    have tallies : set.build.Tallies tally (set.build.tallied.after tally (keys.map .resolve)) :=
      (tallying_lawful set.build).leads_after trivial keys
    have noted :
        set.build.tallied.Coherent (set.build.tallied.after tally (keys.map .resolve)) := by
      rw [← after_append]
      exact coherent_after (history ++ keys.map .resolve) (world, []) events
    rw [← bare]
    exact count_tally_le_one tallies noted.nodup singleton

theorem bookkeeping_exact_runtime :
    runtimeSet.build.isSingleton Slot.parser.key = true ∧
      (runtimeSet.build.tallied.after (.start (.start, []) [])
        [.resolve Slot.formatter.key, .resolve Slot.parser.key]).world.2.count
          Slot.parser.key ≤ 1 := by
  have singleton : runtimeSet.build.isSingleton Slot.parser.key = true := rfl
  refine ⟨singleton, ?_⟩
  obtain ⟨-, -, -, -, -, once⟩ := bookkeeping_exact runtimeSet .start [] []
  obtain ⟨added, tallied, count⟩ := once [Slot.formatter.key, Slot.parser.key] _ singleton
  exact (congrArg (List.count Slot.parser.key) tallied).trans_le ((Nat.le_add_left ..).trans count)

end Injector

end FsmWorkbench
