import FsmWorkbench.Model.Basic

set_option autoImplicit false

namespace FsmWorkbench

inductive Leads (edges : List (String × String)) : String → String → Prop where
  | here (name : String) : Leads edges name name
  | step {origin middle target : String} :
    (origin, middle) ∈ edges → Leads edges middle target → Leads edges origin target

def targets (edges : List (String × String)) (name : String) : List String :=
  (edges.filter fun edge => edge.1 == name).map Prod.snd

def untaken (edges : List (String × String)) (seen : List String) : List (String × String) :=
  edges.filter fun edge => !seen.contains edge.1

@[simp] theorem untaken_nil (edges : List (String × String)) : untaken edges [] = edges :=
  List.filter_eq_self.2 fun _ _ => rfl

theorem length_untaken_cons (edges : List (String × String)) {name : String} {seen : List String}
    (fresh : name ∉ seen) :
    (untaken edges (name :: seen)).length + (targets edges name).length =
      (untaken edges seen).length := by
  have taken : edges.filter (fun edge => edge.1 == name) =
      (untaken edges seen).filter fun edge => edge.1 == name := by
    rw [untaken, List.filter_filter]
    refine List.filter_congr fun edge _ => ?_
    by_cases leaving : edge.1 = name <;> simp [leaving, fresh]
  have left : untaken edges (name :: seen) =
      (untaken edges seen).filter fun edge => !(edge.1 == name) := by
    rw [untaken, untaken, List.filter_filter]
    refine List.filter_congr fun edge _ => ?_
    rw [List.contains_cons, Bool.not_or]
  have split := @List.length_eq_countP_add_countP _ (fun edge => edge.1 == name) (untaken edges seen)
  simp only [List.countP_eq_length_filter, Bool.not_eq_true, Bool.decide_eq_false] at split
  rw [targets, List.length_map, taken, left]
  omega

-- Visits names one after the other. Those that a name leads to are put at the end, also when they
-- have been visited or wait already.
def follow (edges : List (String × String)) (todo seen : List String) : List String :=
  match todo with
  | [] => seen
  | name :: rest =>
    if name ∈ seen then follow edges rest seen
    else follow edges (rest ++ targets edges name) (name :: seen)
termination_by (untaken edges seen).length + todo.length
decreasing_by
  · simp
  · have := length_untaken_cons edges (by assumption)
    simp only [List.length_append, List.length_cons]
    omega

namespace Model

def edges (model : Model) : List (String × String) :=
  model.transitions.map fun transition => (transition.source.text, transition.target.text)

def reachable (model : Model) : List String :=
  follow model.edges (model.initialStates.map fun state => state.name.text) []

end Model

end FsmWorkbench
