import FsmWorkbench.Proofs.Container.Custody

set_option autoImplicit false

namespace FsmWorkbench.Injector

variable {σ ω : Type} {injector : Injector σ ω}

theorem custody_shutdown (state : ContainerState σ (ω × List (Call σ)))
    (custody : injector.Custody state) : injector.Custody (shutdown state) := by
  obtain ⟨world, made⟩ := world_shutdown state
  have gone (key : ServiceKey) : (shutdown state).cached.get? key = none := by
    rw [get?_shutdown]
    split
    · rfl
    · next unnoted =>
      exact Option.not_isSome_iff_eq_none.1 fun cached => unnoted (custody.noted key cached)
  constructor
  case numbered => rw [world, made, custody.numbered]
  case noted => simp [gone]
  case held => simp [gone]
  case declared => simpa only [world] using custody.declared
  case issued => simpa only [world] using custody.issued
  case once => simpa only [world] using custody.once

-- What a history gave out to whoever asked the container, beside what factories were handed:
-- whatever is made anew for each was given out once.
structure Ledger (injector : Injector σ ω) (state : ContainerState σ (ω × List (Call σ)))
    (given : List (Delivery σ)) : Prop where
  custody : injector.Custody state
  issued : ∀ delivery ∈ given, injector.Issued state.world.2 delivery.1 delivery.2
  once : (injector.transients (handovers state.world.2 ++ given)).Nodup

section Ledger

variable {state last : ContainerState σ (ω × List (Call σ))} {given : List (Delivery σ)}
  {key : ServiceKey} {found : Instance σ}

theorem Ledger.start (injector : Injector σ ω) (world : ω) (events : List Event) :
    injector.Ledger (.start (world, []) events) [] where
  custody := .start injector world events
  issued := by simp
  once := List.nodup_nil

theorem Ledger.exists_lt (ledger : injector.Ledger state given) {handle : Handle}
    (member : handle ∈ injector.transients given) :
    ∃ number, handle = .made number ∧ number < state.made := by
  obtain ⟨key, found, gave, transient, rfl⟩ := mem_transients.1 member
  have issued := ledger.issued _ gave
  obtain ⟨number, handle⟩ := issued.exists_number transient
  refine ⟨number, handle, ?_⟩
  rw [ledger.custody.numbered]
  exact issued.lt handle

theorem Ledger.passes (ledger : injector.Ledger state given) (passes : injector.Passes state last)
    (custody : injector.Custody last) : injector.Ledger last given := by
  obtain ⟨added, recorded, since⟩ := passes.recorded
  refine ⟨custody, ?_, ?_⟩
  · intro delivery gave
    rw [recorded]
    exact (ledger.issued delivery gave).append added
  · have handed := custody.once
    have once := ledger.once
    rw [transients_append, List.nodup_append] at once ⊢
    refine ⟨handed, once.2.1, ?_⟩
    rintro handle member _ gave rfl
    rw [recorded, handovers_append, transients_append, List.mem_append] at member
    rcases member with earlier | later
    · exact once.2.2 handle earlier handle gave rfl
    · obtain ⟨number, rfl, made⟩ := ledger.exists_lt gave
      exact absurd (since number later) (Nat.not_le.2 made)

theorem Ledger.give (ledger : injector.Ledger state given)
    (issued : injector.Issued state.world.2 key found)
    (fresh : injector.isTransient key = true →
      found.handle ∉ injector.transients (handovers state.world.2 ++ given)) :
    injector.Ledger state (given ++ [(key, found)]) := by
  refine ⟨ledger.custody, ?_, ?_⟩
  · rw [List.forall_mem_append]
    exact ⟨ledger.issued, by simpa using issued⟩
  · rw [← List.append_assoc, transients_append, List.nodup_append]
    refine ⟨ledger.once, ?_, ?_⟩
    · rw [transients]
      exact ((List.nodup_singleton _).filter _).map_on (by simp)
    · rintro handle member _ new rfl
      obtain ⟨key, found, same, transient, rfl⟩ := mem_transients.1 new
      obtain ⟨rfl, rfl⟩ := Prod.mk.inj (List.mem_singleton.1 same)
      exact fresh transient member

theorem Ledger.perform (ledger : injector.Ledger state given) (operation : Operation) :
    injector.Ledger (injector.recorded.perform state operation)
      (given ++ injector.recorded.answered state operation) := by
  cases operation with
  | shutdown =>
    have custody := custody_shutdown state ledger.custody
    obtain ⟨world, -⟩ := world_shutdown state
    rw [answered, List.append_nil, Injector.perform]
    exact ⟨custody, world ▸ ledger.issued, world ▸ ledger.once⟩
  | resolve key =>
    have sound := (custody_lawful injector).sound [] key state ledger.custody
    have passed := ledger.passes sound.leads sound.keeps
    rw [answered, Injector.perform, resolve]
    cases outcome : (injector.recorded.resolveOn [] key state).1 with
    | error error =>
      simpa [Except.toOption] using passed
    | ok found =>
      obtain ⟨issued, -, pending⟩ := sound.good found outcome
      refine passed.give issued ?_
      intro transient
      obtain ⟨number, handle, since, -, unhanded⟩ := pending transient
      rw [transients_append, List.mem_append]
      rintro (handed | gave)
      · exact unhanded handed
      · obtain ⟨earlier, same, made⟩ := ledger.exists_lt gave
        obtain rfl := Handle.made.inj (handle.symm.trans same)
        exact absurd since (Nat.not_le.2 made)

theorem Ledger.after (ledger : injector.Ledger state given) (history : List Operation) :
    injector.Ledger (injector.recorded.after state history)
      (given ++ injector.recorded.answers state history) := by
  induction history generalizing state given with
  | nil =>
    rw [answers, List.append_nil]
    exact ledger
  | cons operation history ih =>
    rw [answers, after_cons, ← List.append_assoc]
    exact ih (ledger.perform operation)

theorem Ledger.count_eq_one (ledger : injector.Ledger state given)
    (member : (key, found) ∈ handovers state.world.2 ++ given)
    (transient : injector.isTransient key = true) :
    ((handovers state.world.2 ++ given).map fun delivery => delivery.2.handle).count found.handle =
      1 := by
  have issued : ∀ delivery ∈ handovers state.world.2 ++ given,
      injector.Issued state.world.2 delivery.1 delivery.2 :=
    List.forall_mem_append.2 ⟨ledger.custody.issued, ledger.issued⟩
  -- Nothing else has the handle of what is made anew.
  have same :
      ((handovers state.world.2 ++ given).map fun delivery => delivery.2.handle).count
          found.handle =
        (injector.transients (handovers state.world.2 ++ given)).count found.handle := by
    rw [transients, List.count_eq_countP, List.count_eq_countP, List.countP_map, List.countP_map,
      List.countP_filter]
    apply List.countP_congr
    intro delivery gave
    rw [Bool.and_eq_true]
    refine iff_self_and.2 fun handle => ?_
    obtain ⟨keys, -⟩ := (issued _ member).unique (issued delivery gave) (beq_iff_eq.1 handle)
    exact keys ▸ transient
  rw [same]
  exact List.count_eq_one_of_mem ledger.once (mem_transients.2 ⟨key, found, member, transient, rfl⟩)

end Ledger

section Custody

variable {state : ContainerState σ (ω × List (Call σ))} {key : ServiceKey} {found : Instance σ}

theorem Custody.exists_recorded (custody : injector.Custody state) (history : List Operation) :
    ∃ added, (injector.recorded.after state history).world.2 = state.world.2 ++ added := by
  induction history generalizing state with
  | nil => exact ⟨[], (List.append_nil _).symm⟩
  | cons operation history ih =>
    rw [after_cons]
    cases operation with
    | resolve key =>
      have sound := (custody_lawful injector).sound [] key state custody
      obtain ⟨added, recorded, -⟩ := sound.leads.recorded
      obtain ⟨more, recordedMore⟩ := ih sound.keeps
      refine ⟨added ++ more, ?_⟩
      rw [← List.append_assoc, ← recorded]
      exact recordedMore
    | shutdown =>
      obtain ⟨more, recorded⟩ := ih (custody_shutdown state custody)
      exact ⟨more, recorded.trans (congrArg (·.2 ++ more) (world_shutdown state).1)⟩

theorem Custody.declared_of_making (custody : injector.Custody state) {number : Nat}
    {making : Making σ} (known : (makings state.world.2)[number]? = some making) :
    injector.Declared making.maker making.handed := by
  obtain ⟨call, called, maker, handed⟩ := exists_of_mem_makings (List.mem_of_getElem? known)
  exact maker ▸ handed ▸ custody.declared call called

theorem Custody.exists_bound (custody : injector.Custody state)
    (issued : injector.Issued state.world.2 key found) :
    ∃ binding, injector.binding? key = some binding := by
  cases issued with
  | prebuilt bound => exact ⟨_, bound⟩
  | made known =>
    obtain ⟨binding, -, -, -, bound, -⟩ := custody.declared_of_making known
    exact ⟨binding, bound⟩

theorem Custody.resolve_eq (custody : injector.Custody state)
    (issued : injector.Issued state.world.2 key found)
    (kept : injector.isSingleton key = true → state.cached.get? key = some found)
    {binding : Binding σ ω} (bound : injector.binding? key = some binding)
    (singleton : binding.scope = .singleton) :
    injector.resolve key state.unwatched = (.ok found, state.unwatched) := by
  cases provider : binding.provider with
  | prebuilt service =>
    cases issued with
    | prebuilt known given =>
      obtain rfl := Option.some.inj (bound.symm.trans known)
      obtain rfl := Provider.prebuilt.inj (provider.symm.trans given)
      exact resolveOn_prebuilt bound provider [] _
    | made known =>
      obtain ⟨other, _, _, _, same, made, -⟩ := custody.declared_of_making known
      obtain rfl := Option.some.inj (bound.symm.trans same)
      cases provider.symm.trans made
  | factory dependencies scope make =>
    obtain rfl : scope = .singleton := by
      rwa [Binding.scope, provider] at singleton
    exact Step.resolveOn_eq (.kept bound provider (kept (isSingleton_of_factory bound provider)))

end Custody

def deliveries (injector : Injector σ ω) (world : ω) (events : List Event)
    (history : List Operation) : List (Delivery σ) :=
  handovers (injector.recorded.after (.start (world, []) events) history).world.2 ++
    injector.answers (.start world events) history

theorem ledger_after (injector : Injector σ ω) (world : ω) (events : List Event)
    (history : List Operation) :
    injector.Ledger (injector.recorded.after (.start (world, []) events) history)
      (injector.answers (.start world events) history) := by
  have ledger := (Ledger.start injector world events).after history
  rwa [List.nil_append, ← answers_recorded] at ledger

theorem ownership_exact (set : BindingSet σ ω) (world : ω) (events : List Event)
    (history later : List Operation) :
    let state := set.build.after (.start world events) history
    let record := set.build.recorded.after (.start (world, []) events) history
    record.unwatched = state ∧
      (∀ call ∈ record.world.2, set.build.Declared call.requester call.handed) ∧
      ∀ key found, state.cached.get? key = some found →
        ∃ (number : Nat) (making : Making σ), (makings record.world.2)[number]? = some making ∧
          making.maker = key ∧ making.instance number = found ∧
          set.build.Declared key making.handed ∧
          ∀ dependency part, (dependency, part) ∈ making.handed →
            ∃ binding, set.build.binding? dependency = some binding ∧
              (binding.scope = .singleton →
                set.build.resolve dependency state = (.ok part, state)) ∧
              (binding.scope = .transient →
                ((set.build.deliveries world events (history ++ later)).map
                  fun delivery => delivery.2.handle).count part.handle = 1) := by
  intro state record
  have unwatched : record.unwatched = state :=
    (after_unwatched unobtrusive_recorded set.build _ history).symm
  have custody : set.build.Custody record :=
    (custody_lawful set.build).keeps_after custody_shutdown (.start set.build world events) history
  refine ⟨unwatched, custody.declared, ?_⟩
  intro key found cached
  rw [← unwatched] at cached ⊢
  obtain ⟨number, making, known, rfl, same, kept⟩ := custody.held key found cached
  refine ⟨number, making, known, rfl, same, custody.declared_of_making known, ?_⟩
  intro dependency part handed
  have handover := mem_handovers_of_making known handed
  have issued := custody.issued _ handover
  obtain ⟨binding, bound⟩ := custody.exists_bound issued
  refine ⟨binding, bound, ?_, ?_⟩
  · intro singleton
    exact custody.resolve_eq issued (kept dependency part handed) bound singleton
  · intro transient
    apply (ledger_after set.build world events (history ++ later)).count_eq_one
    · obtain ⟨added, recorded⟩ := custody.exists_recorded later
      rw [after_append, recorded, handovers_append]
      exact List.mem_append_left _ (List.mem_append_left _ handover)
    · rw [isTransient_of_bound bound]
      exact decide_eq_true transient

def deskSet : BindingSet String Unit := .ofList "desk"
  [(⟨"Paper"⟩, ⟨"Paper", .prebuilt "paper"⟩),
    (⟨"Pen"⟩, ⟨"Pen", .factory [] .transient fun _ world => ⟨.ok "pen", world, []⟩⟩),
    (⟨"Desk"⟩, ⟨"Desk", .factory [⟨"Pen"⟩, ⟨"Paper"⟩, ⟨"Pen"⟩] .singleton
      fun _ world => ⟨.ok "desk", world, []⟩⟩)]

theorem cached_desk :
    (deskSet.build.after (.start () []) [.resolve ⟨"Desk"⟩]).cached.get? ⟨"Desk"⟩ =
      some ⟨.made 2, "desk", [(⟨"Pen"⟩, .made 1), (⟨"Paper"⟩, .prebuilt ⟨"Paper"⟩)]⟩ := by
  have pen (state : ContainerState String Unit) :
      deskSet.build.resolveOn [⟨"Desk"⟩] ⟨"Pen"⟩ state =
        construct (fun _ world => ⟨.ok "pen", world, []⟩) ⟨⟨"Pen"⟩, .empty⟩ state := by
    rw [resolveOn_factory rfl rfl]
    rfl
  have paper (state : ContainerState String Unit) :
      deskSet.build.resolveOn [⟨"Desk"⟩] ⟨"Paper"⟩ state =
        (.ok ⟨.prebuilt ⟨"Paper"⟩, "paper", []⟩, state) :=
    resolveOn_prebuilt rfl rfl _ state
  have desk : deskSet.build.resolve ⟨"Desk"⟩ (.start () []) = _ := resolveOn_factory rfl rfl [] _
  simp only [List.nil_append, supplyAll, pen, paper] at desk
  exact congrArg (fun result => result.2.cached.get? ⟨"Desk"⟩) desk

theorem ownership_exact_desk :
    let state := deskSet.build.after (.start () []) [.resolve ⟨"Desk"⟩]
    let later : List Operation := [.shutdown, .resolve ⟨"Desk"⟩, .resolve ⟨"Pen"⟩]
    state.cached.get? ⟨"Desk"⟩ = some ⟨.made 2, "desk",
        [(⟨"Pen"⟩, .made 1), (⟨"Paper"⟩, .prebuilt ⟨"Paper"⟩)]⟩ ∧
      (∃ paper, deskSet.build.resolve ⟨"Paper"⟩ state = (.ok paper, state)) ∧
      ((deskSet.build.deliveries () [] ([.resolve ⟨"Desk"⟩] ++ later)).map
        fun delivery => delivery.2.handle).count (.made 1) = 1 := by
  intro state later
  obtain ⟨number, making, -, -, same, -, parts⟩ :=
    (ownership_exact deskSet () [] [.resolve ⟨"Desk"⟩] later).2.2 _ _ cached_desk
  have handed : making.handed.map (fun entry => (entry.1, entry.2.handle)) =
      [(⟨"Pen"⟩, .made 1), (⟨"Paper"⟩, .prebuilt ⟨"Paper"⟩)] := congrArg Instance.parts same
  obtain ⟨⟨_, pen⟩, rest, split, penIs, others⟩ := List.map_eq_cons_iff.1 handed
  obtain ⟨⟨_, paper⟩, _, rfl, paperIs, -⟩ := List.map_eq_cons_iff.1 others
  obtain ⟨rfl, penHandle⟩ := Prod.mk.inj penIs
  obtain ⟨rfl, -⟩ := Prod.mk.inj paperIs
  rw [split] at parts
  obtain ⟨_, boundPen, -, once⟩ := parts ⟨"Pen"⟩ pen (by simp)
  obtain ⟨_, boundPaper, now, -⟩ := parts ⟨"Paper"⟩ paper (by simp)
  cases boundPen
  cases boundPaper
  exact ⟨cached_desk, ⟨paper, now rfl⟩, penHandle ▸ once rfl⟩

end FsmWorkbench.Injector
