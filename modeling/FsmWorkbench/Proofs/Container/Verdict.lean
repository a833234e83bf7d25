import FsmWorkbench.Proofs.Container.Discipline
import FsmWorkbench.Proofs.Container.Verification
import FsmWorkbench.Proofs.Services.Runtime

set_option autoImplicit false

namespace FsmWorkbench.Injector

open Relation

variable {σ ω : Type} {injector : Injector σ ω}

def verdictDiscipline (injector : Injector σ ω) : Discipline σ ω where
  keeps state := ∀ key found, state.cached.get? key = some found →
    injector.Wired key ∧ injector.Offers key found.service
  leads _ _ := True
  good key found _ := injector.Wired key ∧ injector.Offers key found.service
  refl _ := trivial
  trans _ _ := trivial
  stays _ good := good

theorem verdict_lawful (injector : Injector σ ω) :
    injector.verdictDiscipline.Lawful injector := by
  apply Discipline.always_lawful
  case prebuilt =>
    intro key binding service bound provider
    refine ⟨?_, .prebuilt bound provider⟩
    rw [wired_iff bound, Binding.dependencies, provider]
    simp
  case made =>
    intro key binding dependencies scope make supplied found later last bound provider fits call
    have offered := fun other part known => (fits.good other part known).2
    refine ⟨?_, .made bound provider rfl fits.exact offered (outcome_of_construct call)⟩
    rw [wired_iff bound, Binding.dependencies_eq provider]
    intro dependency member
    obtain ⟨part, known⟩ := Option.isSome_iff_exists.1 ((fits.exact dependency).2 member)
    exact (fits.good dependency part known).1

-- What an error says about a key that was resolved from the end of a path.
inductive Defect (injector : Injector σ ω) (path : List ServiceKey) (key : ServiceKey) :
    ResolveError → Prop where
  | missing {lost : ServiceKey} (reaches : ReflTransGen injector.Depends key lost)
      (unbound : injector.binding? lost = none) : Defect injector path key (.missingBinding lost)
  | cyclic {more : List ServiceKey} (loop : injector.Loop (path ++ key :: more)) :
      Defect injector path key (.cyclicDependency (path ++ key :: more))

theorem Defect.through {path : List ServiceKey} {key next : ServiceKey} {error : ResolveError}
    (depends : injector.Depends key next) (defect : injector.Defect (path ++ [key]) next error) :
    injector.Defect path key error := by
  cases defect with
  | missing reaches unbound => exact .missing (.head depends reaches) unbound
  | cyclic loop =>
    rw [List.append_assoc] at loop ⊢
    exact .cyclic loop

theorem Defect.of_mem {path : List ServiceKey} {key : ServiceKey} (nodup : path.Nodup)
    (chain : (path ++ [key]).IsChain injector.Depends) (entered : key ∈ path) :
    injector.Defect path key (.cyclicDependency (path ++ [key])) := by
  refine .cyclic ⟨chain, ?_, key, ?_, List.getLast?_concat⟩
  · rwa [List.dropLast_concat]
  · rwa [List.dropLast_concat]

-- The path grows by the key itself, and stays a path of dependencies without repetition.
theorem Defect.of_dependency {path : List ServiceKey} {key next : ServiceKey}
    {error : ResolveError} (nodup : path.Nodup)
    (chain : (path ++ [key]).IsChain injector.Depends) (fresh : key ∉ path)
    (depends : injector.Depends key next)
    (blamed : (path ++ [key]).Nodup → (path ++ [key] ++ [next]).IsChain injector.Depends →
      injector.Defect (path ++ [key]) next error) : injector.Defect path key error := by
  apply Defect.through depends
  apply blamed
  · rw [← List.concat_eq_append]
    exact List.Nodup.concat fresh nodup
  · rw [List.append_assoc]
    exact List.isChain_append_cons_cons.2 ⟨chain, depends, List.isChain_singleton next⟩

theorem Defect.not_wired {key : ServiceKey} {error : ResolveError}
    (defect : injector.Defect [] key error) : ¬injector.Wired key := by
  cases defect with
  | missing reaches unbound =>
    intro wired
    have bound := (wired _ reaches).1
    simp [unbound] at bound
  | cyclic loop => exact loop.not_wired

-- Among all that a key needs, itself included, there is a factory that an error came out of when it
-- was handed what fits.
def Refuses (injector : Injector σ ω) (discipline : Discipline σ ω) (key : ServiceKey)
    (error : ResolveError) : Prop :=
  ∃ needed binding dependencies scope make supplied later last,
    ReflTransGen injector.Depends key needed ∧
      injector.binding? needed = some binding ∧
      binding.provider = .factory dependencies scope make ∧
      discipline.Fits dependencies supplied later ∧
      construct make ⟨needed, supplied⟩ later = (.error error, last)

theorem Refuses.through {discipline : Discipline σ ω} {key next : ServiceKey}
    {error : ResolveError} (depends : injector.Depends key next)
    (refuses : injector.Refuses discipline next error) :
    injector.Refuses discipline key error := by
  obtain ⟨needed, binding, dependencies, scope, make, supplied, later, last, reaches, call⟩ :=
    refuses
  exact ⟨needed, binding, dependencies, scope, make, supplied, later, last, .head depends reaches,
    call⟩

theorem blame_of_resolveOn {discipline : Discipline σ ω} (lawful : discipline.Lawful injector)
    (path : List ServiceKey) :
    ∀ key state, discipline.keeps state → path.Nodup →
      (path ++ [key]).IsChain injector.Depends → ∀ error,
        (injector.resolveOn path key state).1 = .error error →
          injector.Defect path key error ∨ injector.Refuses discipline key error := by
  induction path using path_induction injector with
  | step path ih =>
  intro key state kept nodup chain error failed
  have step := injector.resolveOn_step path key state
  generalize injector.resolveOn path key state = result at step failed
  cases step with
  | missing unbound =>
    obtain rfl := Except.error.inj failed
    exact .inl (.missing .refl unbound)
  | cyclic bound provider unkept entered =>
    obtain rfl := Except.error.inj failed
    exact .inl (.of_mem nodup chain entered)
  | @unsupplied _ dependencies _ _ _ _ needs supplied =>
    obtain rfl := Except.error.inj failed
    have all := lawful.supplies (path ++ [key]) dependencies kept
    rw [supplied] at all
    obtain ⟨next, member, between, keptBetween, blamed⟩ := all.blamed _ rfl
    rw [← Binding.dependencies_eq needs.provider] at member
    have depends := Depends.of_mem needs.bound member
    rw [or_iff_not_imp_right]
    intro obliged
    refine .of_dependency nodup chain needs.fresh depends ?_
    intro longer along
    have next := ih key _ needs.bound needs.fresh next between keptBetween longer along _ blamed
    exact next.resolve_right fun refuses => obliged (refuses.through depends)
  | @refused _ dependencies _ _ supplied _ later _ needs supply unmet call =>
    obtain rfl := Except.error.inj failed
    have all := lawful.supplies (path ++ [key]) dependencies kept
    rw [supply] at all
    exact .inr ⟨key, _, _, _, _, supplied, later, _, .refl, needs.bound, needs.provider,
      all.fits supplied rfl, call⟩
  | prebuilt | kept | met | handed | stored => cases failed

theorem defect_of_resolveOn (obliging : injector.Obliging) (path : List ServiceKey)
    (key : ServiceKey) (state : ContainerState σ ω) (kept : injector.verdictDiscipline.keeps state)
    (nodup : path.Nodup) (chain : (path ++ [key]).IsChain injector.Depends) (error : ResolveError)
    (failed : (injector.resolveOn path key state).1 = .error error) :
    injector.Defect path key error := by
  rcases blame_of_resolveOn (verdict_lawful injector) path key state kept nodup chain error failed
    with defect |
      ⟨needed, _, dependencies, _, _, supplied, later, _, -, bound, provider, fits, call⟩
  · exact defect
  · have serves : injector.Serves needed dependencies ⟨needed, supplied⟩ :=
      ⟨rfl, fits.exact, fun other found known => (fits.good other found known).2⟩
    obtain ⟨service, outcome⟩ := obliging bound provider ⟨needed, supplied⟩ later.world serves
    rw [construct, outcome] at call
    cases call

theorem isOk_resolve_iff (obliging : injector.Obliging) {state : ContainerState σ ω}
    (kept : injector.verdictDiscipline.keeps state) (key : ServiceKey) :
    (∃ found, (injector.resolve key state).1 = .ok found) ↔ injector.Wired key := by
  have sound := (verdict_lawful injector).sound [] key state kept
  constructor
  · rintro ⟨found, resolved⟩
    exact (sound.good found resolved).1
  · intro wired
    cases outcome : (injector.resolve key state).1 with
    | ok found => exact ⟨found, rfl⟩
    | error error =>
      have defect := defect_of_resolveOn obliging [] key state kept List.nodup_nil
        (List.isChain_singleton key) error outcome
      exact absurd wired defect.not_wired

theorem verdict_shutdown (state : ContainerState σ ω)
    (kept : injector.verdictDiscipline.keeps state) :
    injector.verdictDiscipline.keeps (shutdown state) :=
  Discipline.always_shutdown state kept

theorem verdict_after (history : List Operation) (world : ω) (events : List Event) :
    injector.verdictDiscipline.keeps (injector.after (.start world events) history) :=
  Discipline.always_after (verdict_lawful injector) world events history

-- A container that was set up has been verified, and nothing was made in it yet.
theorem setup_eq_ok {modules : List ServiceModule} {workshop : Workshop} {container : Container}
    {log : List Event} (done : Container.setup modules workshop = (.ok container, log)) :
    container.injector.verify = .ok () ∧ ∃ events, container.state = .start workshop events := by
  rw [Container.setup] at done
  dsimp only at done
  split at done
  · cases done
  · split at done
    · cases done
    · next verified =>
      obtain ⟨same, -⟩ := Prod.mk.inj done
      obtain rfl := Except.ok.inj same
      exact ⟨verified, _, rfl⟩

theorem resolve_exact (set : BindingSet σ ω) (obliging : set.build.Obliging) (world : ω)
    (events : List Event) (history : List Operation) (key : ServiceKey) :
    let state := set.build.after (.start world events) history
    ((∃ found, (set.build.resolve key state).1 = .ok found) ↔ set.build.Wired key) ∧
      (∀ error, (set.build.resolve key state).1 = .error error →
        (∃ lost, error = .missingBinding lost ∧ ReflTransGen set.build.Depends key lost ∧
          set.build.binding? lost = none) ∨
        ∃ path, error = .cyclicDependency path ∧ path.head? = some key ∧ set.build.Loop path) ∧
      (∀ otherWorld otherEvents otherHistory, (∃ found, (set.build.resolve key
          (set.build.after (.start otherWorld otherEvents) otherHistory)).1 = .ok found) ↔
        ∃ found, (set.build.resolve key state).1 = .ok found) ∧
      (set.build.verify = .ok () → set.build.contains key = true →
        ∃ found, (set.build.resolve key state).1 = .ok found) ∧
      ∀ modules workshop container log,
        Container.setup modules workshop = (.ok container, log) → container.injector.Obliging →
          ∀ later bound, container.injector.contains bound = true →
            ∃ found, (container.injector.resolve bound
              (container.injector.after container.state later)).1 = .ok found := by
  have kept := @verdict_after _ _ set.build
  refine ⟨isOk_resolve_iff obliging (kept history world events) key, ?_, ?_, ?_, ?_⟩
  · intro error failed
    have defect := defect_of_resolveOn obliging [] key _ (kept history world events)
      List.nodup_nil (List.isChain_singleton key) error failed
    cases defect with
    | missing reaches unbound => exact .inl ⟨_, rfl, reaches, unbound⟩
    | cyclic loop => exact .inr ⟨_, rfl, rfl, loop⟩
  · intro otherWorld otherEvents otherHistory
    rw [isOk_resolve_iff obliging (kept otherHistory otherWorld otherEvents),
      isOk_resolve_iff obliging (kept history world events)]
  · intro verified bound
    rw [isOk_resolve_iff obliging (kept history world events)]
    apply wired_of_verify verified
    rwa [binding?, Table.isSome_get?]
  · intro modules workshop container log done obliges later key bound
    obtain ⟨verified, start, started⟩ := setup_eq_ok done
    rw [started, isOk_resolve_iff obliges (verdict_after later workshop start)]
    apply wired_of_verify verified
    rwa [binding?, Table.isSome_get?]

theorem resolve_exact_runtime :
    runtimeSet.build.Obliging ∧
      ∃ found, (runtimeSet.build.resolve Slot.validator.key (runtimeSet.build.after
        (.start .start []) [.resolve Slot.parser.key, .shutdown])).1 = .ok found := by
  refine ⟨runtime_obliging, ?_⟩
  exact (resolve_exact runtimeSet runtime_obliging .start [] _ Slot.validator.key).1.2
    runtime_wired_validator

end FsmWorkbench.Injector
