import FsmWorkbench.Proofs.Container.Discipline
import FsmWorkbench.Proofs.Container.Graph

set_option autoImplicit false

namespace FsmWorkbench.Injector

open Relation

variable {σ ω : Type} {injector : Injector σ ω}

def isSingleton (injector : Injector σ ω) (key : ServiceKey) : Bool :=
  match injector.binding? key with
  | some ⟨_, .factory _ .singleton _⟩ => true
  | _ => false

theorem isSingleton_of_factory {key : ServiceKey} {binding : Binding σ ω}
    {dependencies : List ServiceKey} {scope : Scope} {make : Factory σ ω}
    (bound : injector.binding? key = some binding)
    (provider : binding.provider = .factory dependencies scope make) :
    injector.isSingleton key = decide (scope = .singleton) := by
  obtain ⟨implementation, _⟩ := binding
  cases provider
  rw [isSingleton, bound]
  cases scope <;> rfl

theorem isSingleton_of_prebuilt {key : ServiceKey} {binding : Binding σ ω} {service : σ}
    (bound : injector.binding? key = some binding)
    (provider : binding.provider = .prebuilt service) : injector.isSingleton key = false := by
  obtain ⟨implementation, _⟩ := binding
  cases provider
  rw [isSingleton, bound]

theorem exists_of_isSingleton {key : ServiceKey}
    (singleton : injector.isSingleton key = true) :
    ∃ binding dependencies make, injector.binding? key = some binding ∧
      binding.provider = .factory dependencies .singleton make := by
  rw [isSingleton] at singleton
  split at singleton
  · next implementation dependencies make bound =>
    exact ⟨_, dependencies, make, bound, rfl⟩
  · cases singleton

structure Coherent (injector : Injector σ ω) (state : ContainerState σ ω) : Prop where
  nodup : state.constructed.Nodup
  cached : ∀ key, key ∈ state.constructed ↔ (state.cached.get? key).isSome = true
  ordered : ∀ before key later, state.constructed = before ++ key :: later →
    ∀ needed, injector.isSingleton needed = true → TransGen injector.Depends key needed →
      needed ∈ before

theorem Coherent.start (injector : Injector σ ω) (world : ω) (events : List Event) :
    injector.Coherent (.start world events) where
  nodup := List.nodup_nil
  cached := by simp [ContainerState.start]
  ordered := by simp [ContainerState.start]

theorem Coherent.of_eq {state other : ContainerState σ ω} (coherent : injector.Coherent state)
    (cached : other.cached = state.cached) (constructed : other.constructed = state.constructed) :
    injector.Coherent other where
  nodup := constructed ▸ coherent.nodup
  cached := by
    rw [cached, constructed]
    exact coherent.cached
  ordered := by
    rw [constructed]
    exact coherent.ordered

-- All singletons that a key needs, itself included, have been made.
def Ready (injector : Injector σ ω) (key : ServiceKey) (state : ContainerState σ ω) : Prop :=
  ∀ needed, injector.isSingleton needed = true → ReflTransGen injector.Depends key needed →
    needed ∈ state.constructed

theorem Coherent.ready {state : ContainerState σ ω} (coherent : injector.Coherent state)
    {key : ServiceKey} (made : key ∈ state.constructed) : injector.Ready key state := by
  intro needed singleton reaches
  rcases reflTransGen_iff_eq_or_transGen.1 reaches with rfl | needs
  · exact made
  · obtain ⟨before, later, split⟩ := List.append_of_mem made
    have earlier := coherent.ordered before key later split needed singleton needs
    rw [split]
    exact List.mem_append_left _ earlier

theorem ready_of_dependencies {state : ContainerState σ ω} {key : ServiceKey}
    {binding : Binding σ ω} (bound : injector.binding? key = some binding)
    (each : ∀ dependency ∈ binding.dependencies, injector.Ready dependency state)
    {needed : ServiceKey} (singleton : injector.isSingleton needed = true)
    (needs : TransGen injector.Depends key needed) : needed ∈ state.constructed := by
  obtain ⟨dependency, depends, reaches⟩ := TransGen.head'_iff.1 needs
  exact each dependency (depends.mem bound) needed singleton reaches

theorem Coherent.keep {state : ContainerState σ ω} (coherent : injector.Coherent state)
    {key : ServiceKey} {binding : Binding σ ω} (bound : injector.binding? key = some binding)
    (each : ∀ dependency ∈ binding.dependencies, injector.Ready dependency state)
    (fresh : key ∉ state.constructed) (made : Instance σ) :
    injector.Coherent (keep key binding made state) where
  nodup := by
    have noted := List.Nodup.concat fresh coherent.nodup
    rwa [List.concat_eq_append] at noted
  cached other := by
    change other ∈ state.constructed ++ [key] ↔
      ((state.cached.put key made).get? other).isSome = true
    rw [Table.get?_put, List.mem_append, List.mem_singleton, coherent.cached]
    split <;> simp_all
  ordered before other later split needed singleton needs := by
    have noted : state.constructed ++ [key] = before ++ other :: later := split
    rcases List.eq_nil_or_concat later with rfl | ⟨rest, last, rfl⟩
    · obtain ⟨rfl, same⟩ := List.append_inj' noted rfl
      obtain rfl := List.singleton_inj.1 same
      exact ready_of_dependencies bound each singleton needs
    · rw [List.concat_eq_append, ← List.cons_append, ← List.append_assoc] at noted
      obtain ⟨same, -⟩ := List.append_inj' noted rfl
      exact coherent.ordered before other rest same needed singleton needs

structure Grows (first second : ContainerState σ ω) : Prop where
  noted : ∃ fresh, second.constructed = first.constructed ++ fresh
  cached : ∀ key found, first.cached.get? key = some found → second.cached.get? key = some found

theorem Grows.of_eq {first second : ContainerState σ ω} (cached : second.cached = first.cached)
    (constructed : second.constructed = first.constructed) : Grows first second where
  noted := ⟨[], by rw [constructed, List.append_nil]⟩
  cached _ _ known := cached ▸ known

theorem Grows.trans {first second third : ContainerState σ ω} (left : Grows first second)
    (right : Grows second third) : Grows first third where
  noted := by
    obtain ⟨fresh, noted⟩ := left.noted
    obtain ⟨more, notedMore⟩ := right.noted
    exact ⟨fresh ++ more, by rw [notedMore, noted, List.append_assoc]⟩
  cached key found known := right.cached key found (left.cached key found known)

theorem get?_keep (key other : ServiceKey) (binding : Binding σ ω) (made : Instance σ)
    (state : ContainerState σ ω) :
    (keep key binding made state).cached.get? other =
      if other = key then some made else state.cached.get? other :=
  Table.get?_put ..

theorem Grows.keep {state : ContainerState σ ω} {key : ServiceKey} (binding : Binding σ ω)
    (uncached : state.cached.get? key = none) (made : Instance σ) :
    Grows state (keep key binding made state) where
  noted := ⟨[key], rfl⟩
  cached other found known := by
    change (state.cached.put key made).get? other = some found
    rw [Table.get?_put, if_neg, known]
    rintro rfl
    simp [uncached] at known

theorem Ready.of_grows {first second : ContainerState σ ω} {key : ServiceKey}
    (ready : injector.Ready key first) (grows : Grows first second) :
    injector.Ready key second := by
  intro needed singleton reaches
  obtain ⟨fresh, noted⟩ := grows.noted
  rw [noted]
  exact List.mem_append_left fresh (ready needed singleton reaches)

def bookkeeping (injector : Injector σ ω) : Discipline σ ω where
  keeps := injector.Coherent
  leads := Grows
  good key found state := injector.Ready key state ∧
    (injector.isSingleton key = true → state.cached.get? key = some found)
  refl _ := .of_eq rfl rfl
  trans := .trans
  stays grows good := ⟨good.1.of_grows grows, fun singleton =>
    grows.cached _ _ (good.2 singleton)⟩

theorem bookkeeping_lawful (injector : Injector σ ω) : injector.bookkeeping.Lawful injector := by
  have each {binding : Binding σ ω} {dependencies : List ServiceKey} {scope : Scope}
      {make : Factory σ ω} {supplied : Table ServiceKey (Instance σ)} {later : ContainerState σ ω}
      (provider : binding.provider = .factory dependencies scope make)
      (fits : injector.bookkeeping.Fits dependencies supplied later) :
      ∀ dependency ∈ binding.dependencies, injector.Ready dependency later := by
    rw [Binding.dependencies_eq provider]
    intro dependency member
    obtain ⟨found, known⟩ := Option.isSome_iff_exists.1 ((fits.exact dependency).2 member)
    exact (fits.good dependency found known).1
  constructor
  case prebuilt =>
    intro key binding service state bound provider _
    have never := isSingleton_of_prebuilt bound provider
    refine ⟨?_, by simp [never]⟩
    intro needed singleton reaches
    rcases reaches.cases_head with rfl | ⟨dependency, depends, -⟩
    · simp [never] at singleton
    · have member := depends.mem bound
      rw [Binding.dependencies, provider] at member
      cases member
  case kept =>
    intro key binding dependencies make found state _ _ coherent cached
    refine ⟨coherent.ready ?_, fun _ => cached⟩
    rw [coherent.cached, cached]
    rfl
  case refused =>
    intro key binding dependencies scope make supplied error later last _ _ _ coherent call
    obtain ⟨cached, constructed⟩ := unchanged_of_construct call
    exact ⟨coherent.of_eq cached constructed, .of_eq cached constructed⟩
  case handed =>
    intro key binding dependencies make supplied made later last bound provider fits coherent call
    obtain ⟨cached, constructed⟩ := unchanged_of_construct call
    have transient : injector.isSingleton key = false := isSingleton_of_factory bound provider
    refine ⟨coherent.of_eq cached constructed, .of_eq cached constructed, ?_, by simp [transient]⟩
    intro needed singleton reaches
    rcases reflTransGen_iff_eq_or_transGen.1 reaches with rfl | needs
    · simp [transient] at singleton
    · rw [constructed]
      exact ready_of_dependencies bound (each provider fits) singleton needs
  case stored =>
    intro key binding dependencies make supplied made later last bound provider fits coherent
      uncached call
    obtain ⟨cached, constructed⟩ := unchanged_of_construct call
    have called : Grows later last := .of_eq cached constructed
    have fresh : key ∉ last.constructed := by
      rw [constructed, coherent.cached, uncached]
      simp
    have kept := (coherent.of_eq cached constructed).keep bound
      (fun dependency member => (each provider fits dependency member).of_grows called) fresh made
    refine ⟨kept, called.trans (.keep binding (cached ▸ uncached) made), kept.ready ?_, ?_⟩
    · exact List.mem_append_right _ List.mem_cons_self
    · intro _
      exact (Table.get?_put ..).trans (if_pos rfl)

/-- Shutting a container down leaves nothing cached, and lets every singleton that was made go
before all that it needs. -/
structure Closes (injector : Injector σ ω) (state : ContainerState σ ω) : Prop where
  gone : ∀ key, (shutdown state).cached.get? key = none
  noted : (shutdown state).constructed = []
  released : (shutdown state).events =
    state.events ++ state.constructed.reverse.map .released
  ordered : ∀ before key later, state.constructed.reverse = before ++ key :: later →
    ∀ needed, injector.isSingleton needed = true → TransGen injector.Depends key needed →
      needed ∈ later

theorem Coherent.closes {state : ContainerState σ ω} (coherent : injector.Coherent state) :
    injector.Closes state where
  gone key := by
    rw [get?_shutdown]
    split
    · rfl
    · next absent =>
      rw [coherent.cached] at absent
      simpa using absent
  noted := constructed_shutdown state
  released := by
    apply events_foldl_release (List.nodup_reverse.2 coherent.nodup)
    intro key noted
    exact (coherent.cached key).1 (List.mem_reverse.1 noted)
  ordered before key later split needed singleton needs := by
    have forward : state.constructed = later.reverse ++ key :: before.reverse := by
      rw [← List.reverse_reverse state.constructed, split]
      simp
    exact List.mem_reverse.1 (coherent.ordered _ key _ forward needed singleton needs)

theorem coherent_shutdown (state : ContainerState σ ω) (coherent : injector.Coherent state) :
    injector.Coherent (shutdown state) := by
  obtain ⟨gone, empty, -, -⟩ := coherent.closes
  constructor
  case nodup =>
    rw [empty]
    exact List.nodup_nil
  case cached =>
    intro key
    rw [empty, gone]
    simp
  case ordered =>
    intro before key later split
    rw [empty] at split
    simp at split

theorem coherent_after (history : List Operation) (world : ω) (events : List Event) :
    injector.Coherent (injector.after (.start world events) history) := by
  apply (bookkeeping_lawful injector).keeps_after coherent_shutdown
  exact .start injector world events

theorem eq_of_resolve_again {state : ContainerState σ ω} (coherent : injector.Coherent state)
    {key : ServiceKey} {binding : Binding σ ω} (bound : injector.binding? key = some binding)
    (singleton : binding.scope = .singleton) (between : List ServiceKey) {first second : Instance σ}
    (once : (injector.resolve key state).1 = .ok first)
    (again : (injector.resolve key
      (injector.after (injector.resolve key state).2 (between.map .resolve))).1 = .ok second) :
    second = first := by
  cases provider : binding.provider with
  | prebuilt service =>
    have always (state : ContainerState σ ω) :
        injector.resolve key state = (.ok ⟨.prebuilt key, service, []⟩, state) :=
      resolveOn_prebuilt bound provider [] state
    rw [always] at once again
    exact Except.ok.inj (again.symm.trans once)
  | factory dependencies scope make =>
    rw [Binding.scope, provider] at singleton
    have made : injector.isSingleton key = true := by
      rw [isSingleton_of_factory bound provider]
      exact decide_eq_true singleton
    have lawful := bookkeeping_lawful injector
    have sound := lawful.sound [] key state coherent
    have grows := lawful.leads_after sound.keeps between
    have kept := lawful.keeps_after coherent_shutdown sound.keeps (between.map .resolve)
    have last := lawful.sound [] key _ kept
    have cached := last.leads.cached key first
      (grows.cached key first ((sound.good first once).2 made))
    exact Option.some.inj (((last.good second again).2 made).symm.trans cached)

end FsmWorkbench.Injector
