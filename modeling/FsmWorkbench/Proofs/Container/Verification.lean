import FsmWorkbench.Container.Verify
import FsmWorkbench.Proofs.Container.Graph
import FsmWorkbench.Proofs.Container.Resolution

set_option autoImplicit false

namespace FsmWorkbench.Injector

variable {σ ω : Type} {injector : Injector σ ω}

structure Verified (injector : Injector σ ω) (keys verified more : List ServiceKey) : Prop where
  wired : ∀ key ∈ more, injector.Wired key
  visited : ∀ key ∈ keys, key ∈ more
  grows : ∀ key ∈ verified, key ∈ more

theorem visitAll_verified
    {visit : ServiceKey → List ServiceKey → Except ResolveError (List ServiceKey)}
    (each : ∀ key verified more, (∀ old ∈ verified, injector.Wired old) →
      visit key verified = .ok more → injector.Verified [key] verified more)
    {keys verified more : List ServiceKey} (wired : ∀ old ∈ verified, injector.Wired old)
    (visited : visitAll visit keys verified = .ok more) :
    injector.Verified keys verified more := by
  induction keys generalizing verified with
  | nil =>
    obtain rfl := Except.ok.inj visited
    exact ⟨wired, by simp, fun _ member => member⟩
  | cons key keys ih =>
    rw [visitAll] at visited
    split at visited
    · cases visited
    · next between first =>
      have head := each key verified between wired first
      have tail := ih head.wired visited
      refine ⟨tail.wired, ?_, fun old member => tail.grows old (head.grows old member)⟩
      rw [List.forall_mem_cons]
      exact ⟨tail.grows key (head.visited key List.mem_cons_self), tail.visited⟩

theorem verifyOn_verified (path : List ServiceKey) :
    ∀ key verified more, (∀ old ∈ verified, injector.Wired old) →
      injector.verifyOn path key verified = .ok more →
      injector.Verified [key] verified more := by
  induction path using path_induction injector with
  | step path ih =>
  intro key verified more wired visited
  rw [verifyOn] at visited
  split at visited
  · next known =>
    obtain rfl := Except.ok.inj visited
    exact ⟨wired, by simpa using known, fun _ member => member⟩
  split at visited
  · cases visited
  next fresh =>
  split at visited
  · cases visited
  next binding bound =>
  split at visited
  · cases visited
  · next below first =>
    obtain rfl := Except.ok.inj visited
    have all := visitAll_verified (fun next => ih key binding bound fresh next) wired first
    refine ⟨?_, by simp, fun old member => List.mem_cons_of_mem key (all.grows old member)⟩
    rw [List.forall_mem_cons]
    refine ⟨?_, all.wired⟩
    rw [wired_iff bound]
    exact fun dependency member => all.wired dependency (all.visited dependency member)

theorem wired_of_verify (verified : injector.verify = .ok ()) {key : ServiceKey}
    (bound : (injector.binding? key).isSome = true) : injector.Wired key := by
  rw [verify] at verified
  cases visited : visitAll (injector.verifyOn [])
      (injector.bindings.keys.mergeSort ServiceKey.le) [] with
  | error error =>
    rw [visited] at verified
    cases verified
  | ok more =>
    have all := visitAll_verified (verifyOn_verified []) (by simp) visited
    apply all.wired
    apply all.visited
    rw [List.mem_mergeSort]
    rw [binding?, Table.isSome_get?] at bound
    simpa [Table.contains] using bound

end FsmWorkbench.Injector
