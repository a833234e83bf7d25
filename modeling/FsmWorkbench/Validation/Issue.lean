import FsmWorkbench.Model.Basic

set_option autoImplicit false

namespace FsmWorkbench

inductive Severity where
  | error
  | warning
  deriving DecidableEq, Repr, Inhabited

inductive Problem where
  | undefinedState (name : String)
  | duplicateState (name : String)
  | duplicateTransition (name : String)
  | noInitialState
  | extraInitialState (name : String)
  | unreachableState (name : String)
  | missingMachine
  deriving DecidableEq, Repr, Inhabited

namespace Problem

def code : Problem → String
  | .undefinedState _ => "E001"
  | .duplicateState _ => "E002"
  | .duplicateTransition _ => "E003"
  | .noInitialState => "E004"
  | .extraInitialState _ => "E005"
  | .unreachableState _ => "W001"
  | .missingMachine => "W002"

def severity : Problem → Severity
  | .unreachableState _ | .missingMachine => .warning
  | _ => .error

def message : Problem → String
  | .undefinedState name => "Undefined state: " ++ name
  | .duplicateState name => "Duplicate state: " ++ name
  | .duplicateTransition name => "Duplicate transition: " ++ name
  | .noInitialState => "No initial state declared"
  | .extraInitialState name => "Multiple initial states: " ++ name
  | .unreachableState name => "Unreachable state: " ++ name
  | .missingMachine => "Missing machine declaration"

end Problem

structure Issue where
  problem : Problem
  span : Span
  deriving DecidableEq, Repr, Inhabited

namespace Issue

def severity (issue : Issue) : Severity :=
  issue.problem.severity

def code (issue : Issue) : String :=
  issue.problem.code

def message (issue : Issue) : String :=
  issue.problem.message

def le (a b : Issue) : Bool :=
  if a.span.start = b.span.start then a.code ≤ b.code else a.span.start ≤ b.span.start

theorem le_iff {a b : Issue} :
    a.le b = true ↔
      a.span.start < b.span.start ∨ a.span.start = b.span.start ∧ a.code ≤ b.code := by
  rw [le]
  split
  · next tied => simp [tied]
  · next apart =>
    rw [decide_eq_true_eq]
    omega

theorem le_trans (a b c : Issue) : a.le b → b.le c → a.le c := by
  simp only [le]
  intro hab hbc
  split at hab <;> split at hbc <;> split <;> simp only [decide_eq_true_eq] at * <;>
    first | exact String.le_trans hab hbc | omega

theorem le_total (a b : Issue) : (a.le b || b.le a) = true := by
  simp only [le, Bool.or_eq_true]
  split <;> split <;> simp only [decide_eq_true_eq] at * <;>
    first | exact String.le_total .. | omega

def arrange (issues : List Issue) : List Issue :=
  issues.mergeSort le

theorem arrange_perm (issues : List Issue) : (arrange issues).Perm issues :=
  List.mergeSort_perm ..

@[simp] theorem mem_arrange {issue : Issue} {issues : List Issue} :
    issue ∈ arrange issues ↔ issue ∈ issues :=
  (arrange_perm issues).mem_iff

theorem arrange_sorted (issues : List Issue) :
    (arrange issues).Pairwise fun a b => a.le b = true :=
  List.pairwise_mergeSort le_trans le_total issues

end Issue

end FsmWorkbench
