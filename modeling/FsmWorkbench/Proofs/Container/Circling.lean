import FsmWorkbench.Proofs.Container.Clearance
import Mathlib

set_option autoImplicit false

namespace FsmWorkbench.Injector

open Relation

variable {σ ω : Type} {injector : Injector σ ω}

section Round

variable {path way circle : List ServiceKey}

theorem Round.two_le_length (round : injector.Round path way circle) : 2 ≤ path.length := by
  obtain ⟨turn, turns, rfl⟩ := round.returns
  have some := List.length_pos_of_mem (List.mem_of_head? turns)
  simp only [List.length_append, List.length_cons, List.length_nil]
  omega

theorem Round.head_mem_iff (round : injector.Round path way circle) {key : ServiceKey}
    (starts : path.head? = some key) : key ∈ circle ↔ way = [] := by
  obtain ⟨turn, turns, rfl⟩ := round.returns
  cases way with
  | nil =>
    rw [List.nil_append, List.head?_append, Option.mem_def.1 turns] at starts
    obtain rfl := Option.some.inj starts
    simp [List.mem_of_head? turns]
  | cons first way =>
    obtain rfl := Option.some.inj starts
    have apart := (List.nodup_cons.1 round.nodup).1
    simp_all

theorem Round.closed_iff (round : injector.Round path way circle) :
    path.head? = path.getLast? ↔ way = [] := by
  have apart := @Round.head_mem_iff _ _ injector path way circle round
  obtain ⟨turn, turns, rfl⟩ := round.returns
  have last : (way ++ (circle ++ [turn])).getLast? = some turn := by
    rw [← List.append_assoc, List.getLast?_concat]
  rw [last]
  constructor
  · exact fun same => (apart same).1 (List.mem_of_head? turns)
  · rintro rfl
    rw [List.nil_append, List.head?_append, Option.mem_def.1 turns]
    rfl

end Round

theorem Defect.exists_round {key : ServiceKey} {path : List ServiceKey}
    (defect : injector.Defect [] key (.cyclicDependency path)) :
    path.head? = some key ∧ ∃ way circle, injector.Round path way circle := by
  cases defect with
  | cyclic loop => exact ⟨rfl, loop.exists_round⟩

theorem circling_iff (set : BindingSet σ ω) (world : ω) (events : List Event)
    (history : List Operation) (path : List ServiceKey) :
    let injector := set.build
    let error := ResolveError.cyclicDependency path
    (∀ key, (injector.resolve key (injector.after (.start world events) history)).1 =
        .error error →
      injector.Refuses injector.verdictDiscipline key error ∨
        path.head? = some key ∧ ∃ way circle, injector.Round path way circle) ∧
      (injector.verify = .error error →
        ∃ key, injector.contains key = true ∧ path.head? = some key ∧
          ∃ way circle, injector.Round path way circle) ∧
      ∀ way circle, injector.Round path way circle →
        2 ≤ path.length ∧
          (∀ service ∈ circle, TransGen injector.Depends service service) ∧
          (path.head? = path.getLast? ↔ way = []) ∧
          ((∃ service ∈ circle, error.service? = some service) ↔ way = []) := by
  intro injector error
  refine ⟨fun key failed => ?_, fun failed => ?_, fun way circle round => ?_⟩
  · have kept := @verdict_after _ _ injector history world events
    rcases blame_of_resolveOn (verdict_lawful injector) [] key _ kept List.nodup_nil
      (List.isChain_singleton key) error failed with defect | refuses
    · exact .inr defect.exists_round
    · exact .inl refuses
  · obtain ⟨key, bound, defect⟩ := exists_defect_of_verify failed
    rw [binding?, Table.isSome_get?] at bound
    exact ⟨key, bound, defect.exists_round⟩
  · refine ⟨round.two_le_length, fun service => round.transGen, round.closed_iff, ?_⟩
    obtain ⟨turn, turns, whole⟩ := round.returns
    have some : path ≠ [] := by simp [whole]
    obtain ⟨key, starts⟩ := Option.isSome_iff_exists.1 (List.isSome_head?.2 some)
    rw [← round.head_mem_iff starts]
    constructor
    · rintro ⟨service, member, about⟩
      obtain rfl := Option.some.inj (starts.symm.trans about)
      exact member
    · exact fun member => ⟨key, member, starts⟩

def doorSet : BindingSet String Unit := .ofList "door"
  [(⟨"Door"⟩, ⟨"Door", .factory [⟨"Key"⟩] .singleton fun _ world => ⟨.ok "door", world, []⟩⟩),
    (⟨"Key"⟩, ⟨"Key", .factory [⟨"Lock"⟩] .singleton fun _ world => ⟨.ok "key", world, []⟩⟩),
    (⟨"Lock"⟩, ⟨"Lock", .factory [⟨"Key"⟩] .transient fun _ world => ⟨.ok "lock", world, []⟩⟩)]

theorem verify_doorSet : doorSet.build.verify =
    .error (.cyclicDependency [⟨"Door"⟩, ⟨"Key"⟩, ⟨"Lock"⟩, ⟨"Key"⟩]) := by
  cbv

theorem not_depends_door (key : ServiceKey) : ¬doorSet.build.Depends key ⟨"Door"⟩ := by
  rintro ⟨binding, bound, member⟩
  have entered : (key, binding) ∈ doorSet.bindings.entries := Table.get?_eq_some_iff.1 bound
  have free : ∀ entry ∈ doorSet.bindings.entries, ⟨"Door"⟩ ∉ entry.2.dependencies := by
    decide +kernel
  exact free _ entered member

theorem circling_iff_door :
    ∃ way circle, doorSet.build.Round [⟨"Door"⟩, ⟨"Key"⟩, ⟨"Lock"⟩, ⟨"Key"⟩] way circle ∧
      way ≠ [] ∧ ∀ service ∈ circle, TransGen doorSet.build.Depends service service := by
  obtain ⟨-, verified, exact⟩ :=
    circling_iff doorSet () [] [] [⟨"Door"⟩, ⟨"Key"⟩, ⟨"Lock"⟩, ⟨"Key"⟩]
  obtain ⟨key, -, -, way, circle, round⟩ := verified verify_doorSet
  obtain ⟨-, around, closed, -⟩ := exact way circle round
  refine ⟨way, circle, round, fun none => ?_, around⟩
  exact absurd (closed.2 none) (by decide)

-- The door does not need itself, but the error is about it, and ends at the key.
theorem cycle_behind_door :
    let path : List ServiceKey := [⟨"Door"⟩, ⟨"Key"⟩, ⟨"Lock"⟩, ⟨"Key"⟩]
    (doorSet.build.resolve ⟨"Door"⟩ (.start () [])).1 = .error (.cyclicDependency path) ∧
      doorSet.build.verify = .error (.cyclicDependency path) ∧
      path.head? ≠ path.getLast? ∧
      (ResolveError.cyclicDependency path).service? = some ⟨"Door"⟩ ∧
      ¬TransGen doorSet.build.Depends ⟨"Door"⟩ ⟨"Door"⟩ := by
  intro path
  refine ⟨by cbv, verify_doorSet, by decide, rfl, fun cycle => ?_⟩
  obtain ⟨last, -, depends⟩ := TransGen.tail'_iff.1 cycle
  exact not_depends_door last depends

end FsmWorkbench.Injector
