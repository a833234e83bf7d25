import FsmWorkbench.Proofs.Container.Verdict

set_option autoImplicit false

namespace FsmWorkbench.Injector

variable {σ ω : Type} {injector : Injector σ ω}

theorem exists_of_visitAll_eq_error
    {visit : ServiceKey → List ServiceKey → Except ResolveError (List ServiceKey)}
    {keys verified : List ServiceKey} {error : ResolveError}
    (failed : visitAll visit keys verified = .error error) :
    ∃ key ∈ keys, ∃ known, visit key known = .error error := by
  induction keys generalizing verified with
  | nil => cases failed
  | cons key keys ih =>
    rw [visitAll] at failed
    split at failed
    · next blamed =>
      obtain rfl := Except.error.inj failed
      exact ⟨key, List.mem_cons_self, verified, blamed⟩
    · obtain ⟨later, member, blamed⟩ := ih failed
      exact ⟨later, List.mem_cons_of_mem key member, blamed⟩

theorem defect_of_verifyOn (path : List ServiceKey) :
    ∀ key verified error, path.Nodup → (path ++ [key]).IsChain injector.Depends →
      injector.verifyOn path key verified = .error error → injector.Defect path key error := by
  induction path using path_induction injector with
  | step path ih =>
  intro key verified error nodup chain failed
  rw [verifyOn] at failed
  split at failed
  · cases failed
  split at failed
  · next entered =>
    obtain rfl := Except.error.inj failed
    exact .of_mem nodup chain entered
  next fresh =>
  split at failed
  · next unbound =>
    obtain rfl := Except.error.inj failed
    exact .missing .refl unbound
  next binding bound =>
  split at failed
  · next below =>
    obtain rfl := Except.error.inj failed
    obtain ⟨next, member, known, blamed⟩ := exists_of_visitAll_eq_error below
    refine .of_dependency nodup chain fresh (Depends.of_mem bound member) ?_
    intro longer along
    exact ih key binding bound fresh next known _ longer along blamed
  · cases failed

theorem exists_defect_of_verify {error : ResolveError} (failed : injector.verify = .error error) :
    ∃ key, (injector.binding? key).isSome = true ∧ injector.Defect [] key error := by
  rw [verify] at failed
  cases visited : visitAll (injector.verifyOn [])
      (injector.bindings.keys.mergeSort ServiceKey.le) [] with
  | ok more =>
    rw [visited] at failed
    cases failed
  | error found =>
    rw [visited] at failed
    obtain rfl := Except.error.inj failed
    obtain ⟨key, member, known, blamed⟩ := exists_of_visitAll_eq_error visited
    refine ⟨key, ?_, defect_of_verifyOn [] key known found List.nodup_nil
      (List.isChain_singleton key) blamed⟩
    exact Table.mem_keys_iff.1 (List.mem_mergeSort.1 member)

theorem verify_eq_ok_iff :
    injector.verify = .ok () ↔
      ∀ key, (injector.binding? key).isSome = true → injector.Wired key := by
  refine ⟨fun verified key bound => wired_of_verify verified bound, fun wired => ?_⟩
  cases outcome : injector.verify with
  | ok => rfl
  | error error =>
    obtain ⟨key, bound, defect⟩ := exists_defect_of_verify outcome
    exact absurd (wired key bound) defect.not_wired

end FsmWorkbench.Injector
