import FsmWorkbench.Container.Injector
import Mathlib.Data.List.Chain
import Mathlib.Data.List.Nodup

set_option autoImplicit false

namespace FsmWorkbench.Injector

open Relation

variable {σ ω : Type}

def Depends (injector : Injector σ ω) (key dependency : ServiceKey) : Prop :=
  ∃ binding, injector.binding? key = some binding ∧ dependency ∈ binding.dependencies

/-- Whatever a key needs, itself included, is bound and does not need itself. -/
def Wired (injector : Injector σ ω) (key : ServiceKey) : Prop :=
  ∀ other, ReflTransGen injector.Depends key other →
    (injector.binding? other).isSome = true ∧ ¬TransGen injector.Depends other other

variable {injector : Injector σ ω} {key other : ServiceKey} {binding : Binding σ ω}

theorem Depends.of_mem (bound : injector.binding? key = some binding)
    (member : other ∈ binding.dependencies) : injector.Depends key other :=
  ⟨binding, bound, member⟩

theorem Depends.mem (depends : injector.Depends key other)
    (bound : injector.binding? key = some binding) : other ∈ binding.dependencies := by
  obtain ⟨found, same, member⟩ := depends
  obtain rfl := Option.some.inj (same.symm.trans bound)
  exact member

theorem Wired.of_reaches (wired : injector.Wired key)
    (reaches : ReflTransGen injector.Depends key other) : injector.Wired other :=
  fun last further => wired last (reaches.trans further)

theorem Wired.isSome (wired : injector.Wired key) : (injector.binding? key).isSome = true :=
  (wired key .refl).1

-- A cycle through the key would lead through one of its dependencies and so not be in order there.
theorem wired_iff (bound : injector.binding? key = some binding) :
    injector.Wired key ↔ ∀ dependency ∈ binding.dependencies, injector.Wired dependency := by
  constructor
  · intro wired dependency member
    exact wired.of_reaches (.single (.of_mem bound member))
  · intro each other reaches
    rcases reaches.cases_head with rfl | ⟨dependency, depends, further⟩
    · refine ⟨by rw [bound]; rfl, fun cycle => ?_⟩
      obtain ⟨dependency, depends, back⟩ := TransGen.head'_iff.1 cycle
      exact (each dependency (depends.mem bound) _ back).2 cycle
    · exact each dependency (depends.mem bound) other further

/-- A path along declared dependencies that ends where it has been before, for the first time. -/
structure Loop (injector : Injector σ ω) (path : List ServiceKey) : Prop where
  chain : path.IsChain injector.Depends
  nodup : path.dropLast.Nodup
  returns : ∃ last ∈ path.dropLast, path.getLast? = some last

/-- A way along declared dependencies to a circle of them, and once around that. -/
structure Round (injector : Injector σ ω) (path way circle : List ServiceKey) : Prop where
  chain : path.IsChain injector.Depends
  nodup : (way ++ circle).Nodup
  returns : ∃ turn ∈ circle.head?, path = way ++ (circle ++ [turn])

section Round

variable {path way circle : List ServiceKey} {first last service : ServiceKey}

theorem Loop.exists_round (loop : injector.Loop path) :
    ∃ way circle, injector.Round path way circle := by
  obtain ⟨last, entered, ends⟩ := loop.returns
  obtain ⟨front, rfl⟩ := List.getLast?_eq_some_iff.1 ends
  have nodup := loop.nodup
  rw [List.dropLast_concat] at entered nodup
  obtain ⟨way, rest, rfl⟩ := List.append_of_mem entered
  exact ⟨way, last :: rest, loop.chain, nodup, last, rfl, List.append_assoc ..⟩

theorem reaches_of_chain (chain : path.IsChain injector.Depends) (starts : path.head? = some first)
    (ends : path.getLast? = some last) : ReflTransGen injector.Depends first last := by
  obtain ⟨more, rfl⟩ := List.head?_eq_some_iff.1 starts
  rw [List.getLast?_eq_some_getLast (List.cons_ne_nil first more)] at ends
  exact List.relationReflTransGen_of_exists_isChain_cons more chain (Option.some.inj ends)

theorem Round.transGen (round : injector.Round path way circle) (member : service ∈ circle) :
    TransGen injector.Depends service service := by
  obtain ⟨turn, turns, rfl⟩ := round.returns
  obtain ⟨before, after, rfl⟩ := List.append_of_mem member
  have chain := round.chain.right_of_append
  rw [List.append_assoc, List.cons_append, List.isChain_split] at chain
  obtain ⟨front, back⟩ := chain
  have onward : ReflTransGen injector.Depends turn service := by
    refine reaches_of_chain front ?_ List.getLast?_concat
    cases before with
    | nil => exact turns
    | cons other before => exact turns
  obtain ⟨next, more, split⟩ :=
    List.exists_cons_of_ne_nil (List.append_ne_nil_of_right_ne_nil after (List.cons_ne_nil turn []))
  rw [split] at back
  obtain ⟨depends, behind⟩ := List.isChain_cons_cons.1 back
  have ends : (next :: more).getLast? = some turn := by rw [← split, List.getLast?_concat]
  have around := reaches_of_chain behind rfl ends
  exact .head' depends (around.trans onward)

end Round

theorem Loop.not_wired {more : List ServiceKey} (loop : injector.Loop (key :: more)) :
    ¬injector.Wired key := by
  intro wired
  obtain ⟨way, circle, round⟩ := loop.exists_round
  obtain ⟨turn, turns, path⟩ := round.returns
  have cycle := round.transGen (List.mem_of_head? turns)
  have ends : (key :: more).getLast? = some turn := by
    rw [path, ← List.append_assoc, List.getLast?_concat]
  exact (wired turn (reaches_of_chain round.chain rfl ends)).2 cycle

end FsmWorkbench.Injector
