import FsmWorkbench.Proofs.Container.Inspection
import FsmWorkbench.Proofs.Container.Making
import FsmWorkbench.Proofs.Container.Merging
import FsmWorkbench.Proofs.Services.Provision

set_option autoImplicit false

namespace FsmWorkbench

open Relation

namespace ServiceModule

def set? (contributor : ServiceModule) : Option ServiceSet :=
  contributor.bindings.toOption.map (.ofList contributor.name)

def binding? (contributor : ServiceModule) (key : ServiceKey) : Option ServiceBinding :=
  contributor.bindings.toOption.bind fun bindings => bindings.reverse.lookup key

theorem get?_set (contributor : ServiceModule) (key : ServiceKey) :
    (contributor.set?.bind fun set => set.get? key) = contributor.binding? key := by
  rw [set?, binding?, Option.bind_map]
  congr 1
  funext bindings
  exact BindingSet.get?_ofList contributor.name bindings key

end ServiceModule

def chosen? (modules : List ServiceModule) (key : ServiceKey) : Option ServiceBinding :=
  modules.reverse.findSome? fun contributor => contributor.binding? key

def merged (modules : List ServiceModule) : ServiceSet :=
  .mergeAll (modules.filterMap ServiceModule.set?)

theorem binding?_merged (modules : List ServiceModule) :
    (merged modules).build.binding? = chosen? modules := by
  funext key
  have last := BindingSet.get?_mergeAll (modules.filterMap ServiceModule.set?) key
  rw [← List.filterMap_reverse, ← List.head?_filterMap, List.filterMap_filterMap,
    List.head?_filterMap] at last
  refine last.trans ?_
  rw [chosen?]
  congr 1
  funext contributor
  exact contributor.get?_set key

theorem isSome_chosen? {modules : List ServiceModule} {contributor : ServiceModule}
    (member : contributor ∈ modules) {key : ServiceKey}
    (bound : (contributor.binding? key).isSome = true) :
    (chosen? modules key).isSome = true := by
  rw [chosen?, List.isSome_findSome?, List.any_reverse, List.any_eq_true]
  exact ⟨contributor, member, bound⟩

def ServiceModule.Sound (contributor : ServiceModule) : Prop :=
  ∃ bindings, contributor.bindings = .ok bindings

theorem collect_eq_ok {modules : List ServiceModule}
    (sound : ∀ contributor ∈ modules, contributor.Sound) :
    (collect modules).1 = .ok (modules.filterMap ServiceModule.set?) := by
  induction modules with
  | nil => rfl
  | cons contributor rest ih =>
    rw [List.forall_mem_cons] at sound
    obtain ⟨⟨bindings, provided⟩, sound⟩ := sound
    have set : contributor.set? = some (.ofList contributor.name bindings) := by
      rw [ServiceModule.set?, provided]
      rfl
    rw [collect, provided, List.filterMap_cons_some set]
    exact congrArg (Except.map (_ :: ·)) (ih sound)

theorem collect_eq_error {before after : List ServiceModule} {failing : ServiceModule}
    {reason : String} (sound : ∀ contributor ∈ before, contributor.Sound)
    (failed : failing.bindings = .error reason) :
    (collect (before ++ failing :: after)).1 = .error (.collaborator failing.name reason) := by
  induction before with
  | nil => rw [List.nil_append, collect, failed]
  | cons contributor rest ih =>
    rw [List.forall_mem_cons] at sound
    obtain ⟨⟨bindings, provided⟩, sound⟩ := sound
    rw [List.cons_append, collect, provided]
    exact congrArg (Except.map (_ :: ·)) (ih sound)

theorem setup_eq_error {before after : List ServiceModule} {failing : ServiceModule}
    {reason : String} (sound : ∀ contributor ∈ before, contributor.Sound)
    (failed : failing.bindings = .error reason) (workshop : Workshop) :
    (Container.setup (before ++ failing :: after) workshop).1 =
      .error (.collaborator failing.name reason) := by
  rw [Container.setup]
  simp only [collect_eq_error sound failed]

theorem setup_eq_configuration {modules : List ServiceModule}
    (sound : ∀ contributor ∈ modules, contributor.Sound) {cause : ResolveError}
    (failed : (merged modules).build.verify = .error cause) (workshop : Workshop) :
    (Container.setup modules workshop).1 = .error (.configuration cause) := by
  have verified (events : List Event) :
      (Container.ofSet (merged modules) workshop events).verify = .error cause := failed
  rw [merged] at verified
  rw [Container.setup]
  simp only [collect_eq_ok sound, verified]

theorem exists_setup_of_verify {modules : List ServiceModule}
    (sound : ∀ contributor ∈ modules, contributor.Sound)
    (passed : (merged modules).build.verify = .ok ()) (workshop : Workshop) :
    ∃ container, (Container.setup modules workshop).1 = .ok container ∧
      container.injector = (merged modules).build := by
  have verified (events : List Event) :
      (Container.ofSet (merged modules) workshop events).verify = .ok () := passed
  rw [merged] at verified
  rw [Container.setup]
  simp only [collect_eq_ok sound, verified]
  exact ⟨_, rfl, rfl⟩

theorem exists_first_failing {modules : List ServiceModule}
    (unsound : ¬∀ contributor ∈ modules, contributor.Sound) :
    ∃ before failing after reason, modules = before ++ failing :: after ∧
      (∀ contributor ∈ before, contributor.Sound) ∧ failing.bindings = .error reason := by
  induction modules with
  | nil => simp at unsound
  | cons contributor rest ih =>
    cases provided : contributor.bindings with
    | error reason => exact ⟨[], contributor, rest, reason, rfl, by simp, provided⟩
    | ok bindings =>
      have sound : contributor.Sound := ⟨bindings, provided⟩
      rw [List.forall_mem_cons, not_and] at unsound
      obtain ⟨before, failing, after, reason, rfl, others, failed⟩ := ih (unsound sound)
      exact ⟨contributor :: before, failing, after, reason, rfl,
        List.forall_mem_cons.2 ⟨sound, others⟩, failed⟩

theorem sound_of_setup {modules : List ServiceModule} {workshop : Workshop}
    {container : Container} (done : (Container.setup modules workshop).1 = .ok container) :
    ∀ contributor ∈ modules, contributor.Sound := by
  by_contra unsound
  obtain ⟨before, failing, after, reason, rfl, sound, failed⟩ := exists_first_failing unsound
  rw [setup_eq_error sound failed workshop] at done
  cases done

theorem injector_of_setup {modules : List ServiceModule} {workshop : Workshop}
    {container : Container} (done : (Container.setup modules workshop).1 = .ok container) :
    container.injector = (merged modules).build ∧ (merged modules).build.verify = .ok () := by
  have sound := sound_of_setup done
  cases outcome : (merged modules).build.verify with
  | error cause =>
    rw [setup_eq_configuration sound outcome workshop] at done
    cases done
  | ok =>
    obtain ⟨other, same, built⟩ := exists_setup_of_verify sound outcome workshop
    obtain rfl := Except.ok.inj (same.symm.trans done)
    exact ⟨built, rfl⟩

theorem isOk_setup_iff {modules : List ServiceModule}
    (sound : ∀ contributor ∈ modules, contributor.Sound) (workshop : Workshop) :
    (∃ container, (Container.setup modules workshop).1 = .ok container) ↔
      (merged modules).build.verify = .ok () := by
  constructor
  · rintro ⟨container, done⟩
    exact (injector_of_setup done).2
  · intro passed
    obtain ⟨container, done, -⟩ := exists_setup_of_verify sound passed workshop
    exact ⟨container, done⟩

theorem exists_cause_of_setup {modules : List ServiceModule}
    (sound : ∀ contributor ∈ modules, contributor.Sound) {workshop : Workshop}
    {error : SetupError} (failed : (Container.setup modules workshop).1 = .error error) :
    ∃ cause, error = .configuration cause ∧ (merged modules).build.verify = .error cause := by
  cases outcome : (merged modules).build.verify with
  | error cause =>
    rw [setup_eq_configuration sound outcome workshop] at failed
    exact ⟨cause, (Except.error.inj failed).symm, rfl⟩
  | ok =>
    obtain ⟨container, done, -⟩ := exists_setup_of_verify sound outcome workshop
    cases done.symm.trans failed

theorem setup_exact (modules : List ServiceModule) (workshop : Workshop) :
    (∀ before failing after reason, modules = before ++ failing :: after →
        (∀ contributor ∈ before, contributor.Sound) → failing.bindings = .error reason →
          (Container.setup modules workshop).1 =
            .error (.collaborator failing.name reason)) ∧
      ((∀ contributor ∈ modules, contributor.Sound) →
        ((∃ container, (Container.setup modules workshop).1 = .ok container) ↔
          (∀ key dependency, (merged modules).build.Depends key dependency →
              (merged modules).build.contains dependency = true) ∧
            ∀ key, ¬TransGen (merged modules).build.Depends key key) ∧
        ∀ error, (Container.setup modules workshop).1 = .error error →
          ∃ cause, error = .configuration cause ∧
            ((∃ lost asking, cause = .missingBinding lost ∧
                (merged modules).build.contains lost = false ∧
                (merged modules).build.contains asking = true ∧
                (merged modules).build.Depends asking lost) ∨
              ∃ path, cause = .cyclicDependency path ∧ (merged modules).build.Loop path ∧
                ∀ key ∈ path.dropLast, (merged modules).build.contains key = true)) ∧
      (merged modules).build.binding? = chosen? modules ∧
      ∀ container, (Container.setup modules workshop).1 = .ok container →
        ∀ history, ∀ contributor ∈ modules, ∀ key, (contributor.binding? key).isSome = true →
          let result := (container.injector.resolve key
            (container.injector.after container.state history)).1
          (∃ found, result = .ok found ∧ Injector.Built (chosen? modules) key found) ∨
            ∃ error, result = .error error ∧ Injector.Fails (chosen? modules) key error := by
  refine ⟨?_, ?_, binding?_merged modules, ?_⟩
  · rintro before failing after reason rfl sound failed
    exact setup_eq_error sound failed workshop
  · intro sound
    refine ⟨(isOk_setup_iff sound workshop).trans
      (Injector.verify_eq_ok_iff.trans Injector.wired_all_iff), ?_⟩
    intro error failed
    obtain ⟨cause, rfl, unverified⟩ := exists_cause_of_setup sound failed
    exact ⟨cause, rfl, Injector.fault_of_verify unverified⟩
  · intro container done history contributor member key bound
    obtain ⟨built, verified⟩ := injector_of_setup done
    have state := Container.state_of_setup (Prod.ext done rfl)
    have chosen := binding?_merged modules
    rw [state, built, ← chosen]
    apply Injector.built_or_fails
    · apply Injector.wired_of_verify verified
      rw [chosen]
      exact isSome_chosen? member bound
    · exact Injector.building_after _ workshop _ history

-- The validator of the editor module stands in for that of the runtime module.
theorem setup_exact_editor :
    chosen? [.runtime, .editor] Slot.validator.key = some Bindings.editorValidator ∧
      ∃ container found, Container.editor = .ok container ∧
        (container.injector.resolve Slot.validator.key
          (container.injector.after container.state
            [.resolve Slot.formatter.key, .shutdown])).1 = .ok found ∧
        Injector.Built (chosen? [.runtime, .editor]) Slot.validator.key found := by
  obtain ⟨container, done, runs⟩ := exists_editor_eq_ok
  obtain ⟨-, -, -, resolves⟩ := setup_exact [.runtime, .editor] .start
  have kept : container.injector.verdictDiscipline.keeps
      (container.injector.after container.state [.resolve Slot.formatter.key, .shutdown]) := by
    rw [Container.state_of_setup (Prod.ext done rfl)]
    exact Injector.verdict_after _ _ _
  have wired : container.injector.Wired Slot.validator.key := by
    rw [runs.same]
    exact editor_equipped.validator.wired
  obtain ⟨found, resolved⟩ := (Injector.isOk_resolve_iff (runs.same ▸ runs.obliging) kept _).2 wired
  refine ⟨rfl, container, found, done, resolved, ?_⟩
  rcases resolves container done _ .editor (by simp) Slot.validator.key rfl with
    ⟨other, same, built⟩ | ⟨error, failed, -⟩
  · obtain rfl := Except.ok.inj (resolved.symm.trans same)
    exact built
  · cases resolved.symm.trans failed

end FsmWorkbench
