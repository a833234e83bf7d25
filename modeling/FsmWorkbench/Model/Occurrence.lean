import FsmWorkbench.Model.Basic

set_option autoImplicit false

namespace FsmWorkbench

inductive SymbolKind where
  | machine
  | state
  | transition
  deriving DecidableEq, Repr, Inhabited

structure Occurrence where
  kind : SymbolKind
  name : Name
  definition : Bool
  deriving DecidableEq, Repr, Inhabited

namespace Occurrence

def le (a b : Occurrence) : Bool :=
  a.name.span.start ≤ b.name.span.start

theorem le_trans (a b c : Occurrence) : a.le b → b.le c → a.le c := by
  simpa [le] using Nat.le_trans

theorem le_total (a b : Occurrence) : (a.le b || b.le a) = true := by
  simpa [le] using Nat.le_total ..

end Occurrence

namespace TransitionDecl

def occurrences (transition : TransitionDecl) : List Occurrence :=
  ⟨.transition, transition.name, true⟩ ::
    transition.endpoints.map fun endpoint => ⟨.state, endpoint, false⟩

end TransitionDecl

namespace Model

def names (model : Model) : List Occurrence :=
  (model.machine.map fun machine => ⟨.machine, machine.name, true⟩).toList ++
    model.states.map (fun state => ⟨.state, state.name, true⟩) ++
    model.transitions.flatMap TransitionDecl.occurrences

def occurrences (model : Model) : List Occurrence :=
  model.names.mergeSort Occurrence.le

theorem occurrences_perm (model : Model) : model.occurrences.Perm model.names :=
  List.mergeSort_perm ..

theorem mem_occurrences {model : Model} {occurrence : Occurrence} :
    occurrence ∈ model.occurrences ↔ occurrence ∈ model.names :=
  model.occurrences_perm.mem_iff

theorem occurrences_sorted (model : Model) :
    model.occurrences.Pairwise fun a b => a.le b = true :=
  List.pairwise_mergeSort Occurrence.le_trans Occurrence.le_total model.names

def symbolAt? (model : Model) (offset : Nat) : Option Occurrence :=
  model.occurrences.find? fun occurrence => occurrence.name.span.touches offset

def definition? (model : Model) (kind : SymbolKind) (name : String) : Option Name :=
  match kind with
  | .machine => (model.machine.map MachineDecl.name).filter fun found => found.text == name
  | .state => (model.state? name).map StateDecl.name
  | .transition => (model.transition? name).map TransitionDecl.name

def references (model : Model) (kind : SymbolKind) (name : String) : List Name :=
  (model.occurrences.filter fun occurrence =>
    occurrence.kind == kind && !occurrence.definition && occurrence.name.text == name).map
      Occurrence.name

theorem symbolAt?_eq_some {model : Model} {offset : Nat} {occurrence : Occurrence}
    (h : model.symbolAt? offset = some occurrence) :
    occurrence ∈ model.names ∧ occurrence.name.span.touches offset = true :=
  ⟨mem_occurrences.1 (List.mem_of_find?_eq_some h),
    List.find?_some (p := fun o : Occurrence => o.name.span.touches offset) h⟩

end Model

end FsmWorkbench
