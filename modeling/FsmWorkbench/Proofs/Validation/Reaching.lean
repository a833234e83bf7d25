import FsmWorkbench.Validation.Reachability
import Mathlib.Logic.Function.Iterate

set_option autoImplicit false

namespace FsmWorkbench

variable {edges : List (String × String)} {todo seen : List String}

-- One round of the search takes one name off those that wait, and puts all that it leads to behind
-- them unless it has been visited before.
def round (edges : List (String × String)) :
    List String × List String → List String × List String
  | ([], seen) => ([], seen)
  | (name :: rest, seen) =>
    if name ∈ seen then (rest, seen) else (rest ++ targets edges name, name :: seen)

-- Each round uses up a name that waits or an edge that has not been taken.
theorem exists_rounds (edges : List (String × String)) (todo seen : List String) :
    ∃ rounds, (round edges)^[rounds] (todo, seen) = ([], follow edges todo seen) ∧
      rounds + (untaken edges (follow edges todo seen)).length =
        (untaken edges seen).length + todo.length := by
  fun_induction follow edges todo seen with
  | case1 seen => exact ⟨0, rfl, Nat.add_comm ..⟩
  | case2 seen name rest visited ih =>
    obtain ⟨rounds, ends, used⟩ := ih
    refine ⟨rounds + 1, ?_, ?_⟩
    · rw [Function.iterate_succ_apply, round, if_pos visited, ends]
    · rw [List.length_cons]
      omega
  | case3 seen name rest fresh ih =>
    obtain ⟨rounds, ends, used⟩ := ih
    have fewer := length_untaken_cons edges fresh
    refine ⟨rounds + 1, ?_, ?_⟩
    · rw [Function.iterate_succ_apply, round, if_neg fresh, ends]
    · rw [List.length_append] at used
      rw [List.length_cons]
      omega

-- Whatever a visited name leads to has been visited or waits.
def Closed (edges : List (String × String)) (todo seen : List String) : Prop :=
  ∀ origin target, (origin, target) ∈ edges → origin ∈ seen → target ∈ seen ∨ target ∈ todo

theorem mem_targets {origin target : String} :
    target ∈ targets edges origin ↔ (origin, target) ∈ edges := by
  simp [targets]

theorem Closed.nil (edges : List (String × String)) (todo : List String) : Closed edges todo [] :=
  fun _ _ _ visited => absurd visited List.not_mem_nil

theorem Closed.skip {name : String} (closed : Closed edges (name :: todo) seen)
    (visited : name ∈ seen) : Closed edges todo seen := by
  intro origin target edge member
  rcases closed origin target edge member with found | waits
  · exact .inl found
  · rcases List.mem_cons.1 waits with rfl | later
    · exact .inl visited
    · exact .inr later

theorem Closed.visit {name : String} (closed : Closed edges (name :: todo) seen) :
    Closed edges (todo ++ targets edges name) (name :: seen) := by
  intro origin target edge member
  rcases List.mem_cons.1 member with rfl | earlier
  · exact .inr (List.mem_append_right _ (mem_targets.2 edge))
  · rcases closed origin target edge earlier with found | waits
    · exact .inl (List.mem_cons_of_mem _ found)
    · rcases List.mem_cons.1 waits with rfl | later
      · exact .inl List.mem_cons_self
      · exact .inr (List.mem_append_left _ later)

-- A way out of the visited names goes through one that waits.
theorem Closed.escape (closed : Closed edges todo seen) {origin target : String}
    (visited : origin ∈ seen) (leads : Leads edges origin target) :
    target ∈ seen ∨ ∃ waiting ∈ todo, Leads edges waiting target := by
  induction leads with
  | here => exact .inl visited
  | step edge further ih =>
    rcases closed _ _ edge visited with found | waits
    · exact ih found
    · exact .inr ⟨_, waits, further⟩

theorem mem_follow_iff (closed : Closed edges todo seen) {name : String} :
    name ∈ follow edges todo seen ↔
      name ∈ seen ∨ ∃ waiting ∈ todo, Leads edges waiting name := by
  fun_induction follow edges todo seen with
  | case1 => simp
  | case2 seen first rest visited ih =>
    have rest := closed.skip visited
    simp only [ih rest, List.mem_cons, exists_eq_or_imp]
    constructor
    · exact Or.imp_right .inr
    · rintro (found | leads | waits)
      · exact .inl found
      · exact rest.escape visited leads
      · exact .inr waits
  | case3 seen first rest fresh ih =>
    simp only [ih closed.visit, List.mem_cons, exists_eq_or_imp]
    constructor
    · rintro ((rfl | found) | ⟨waiting, member, leads⟩)
      · exact .inr (.inl (.here name))
      · exact .inl found
      · rcases List.mem_append.1 member with waits | target
        · exact .inr (.inr ⟨waiting, waits, leads⟩)
        · exact .inr (.inl (.step (mem_targets.1 target) leads))
    · rintro (found | leads | ⟨waiting, waits, leads⟩)
      · exact .inl (.inr found)
      · cases leads with
        | here => exact .inl (.inl rfl)
        | step edge further =>
          exact .inr ⟨_, List.mem_append_right _ (mem_targets.2 edge), further⟩
      · exact .inr ⟨waiting, List.mem_append_left _ waits, leads⟩

namespace Model

/-- The name of an initial state leads to this one along transitions. -/
def Reaches (model : Model) (name : String) : Prop :=
  ∃ state ∈ model.states, state.initial = true ∧ Leads model.edges state.name.text name

theorem mem_reachable_iff {model : Model} {name : String} :
    name ∈ model.reachable ↔ model.Reaches name := by
  rw [reachable, mem_follow_iff (Closed.nil _ _)]
  simp only [initialStates, List.not_mem_nil, false_or, List.mem_map, List.mem_filter, and_assoc]
  constructor
  · rintro ⟨_, ⟨state, listed, initial, rfl⟩, leads⟩
    exact ⟨state, listed, initial, leads⟩
  · rintro ⟨state, listed, initial, leads⟩
    exact ⟨_, ⟨state, listed, initial, rfl⟩, leads⟩

instance (model : Model) (name : String) : Decidable (model.Reaches name) :=
  decidable_of_iff _ mem_reachable_iff

theorem reachable_eq_nil_iff {model : Model} :
    model.reachable = [] ↔ ∀ state ∈ model.states, state.initial = false := by
  simp only [List.eq_nil_iff_forall_not_mem, mem_reachable_iff, Reaches, not_exists, not_and]
  constructor
  · intro none state listed
    rw [← Bool.not_eq_true]
    exact fun initial => none state.name.text state listed initial (.here _)
  · intro none name state listed initial
    rw [none state listed] at initial
    cases initial

end Model

end FsmWorkbench
