import FsmWorkbench.Model.Reader
import FsmWorkbench.Proofs.Notation.Cutting

set_option autoImplicit false

namespace FsmWorkbench

structure TransitionOutline where
  name : String
  source : String
  target : String
  guard : Option String
  deriving DecidableEq, Repr, Inhabited

structure Outline where
  machine : Option String
  states : List (String × Bool)
  transitions : List TransitionOutline
  deriving DecidableEq, Repr, Inhabited

def StateDecl.outline (state : StateDecl) : String × Bool :=
  (state.name.text, state.initial)

def TransitionDecl.outline (transition : TransitionDecl) : TransitionOutline :=
  ⟨transition.name.text, transition.source.text, transition.target.text, transition.guard⟩

def Model.outline (model : Model) : Outline where
  machine := model.machine.map fun machine => machine.name.text
  states := model.states.map StateDecl.outline
  transitions := model.transitions.map TransitionDecl.outline

inductive Item where
  | state (name : String) (initial : Bool)
  | transition (outline : TransitionOutline)
  deriving DecidableEq, Repr, Inhabited

namespace Item

def lexemes : Item → List Lexeme
  | .state name initial =>
    [.keyword .state, .name name] ++ if initial then [.keyword .initial] else []
  | .transition ⟨name, source, target, guard⟩ =>
    [.keyword .transition, .name name, .keyword .source, .name source, .keyword .target,
      .name target] ++
      match guard with
      | some content => [.keyword .guard, .quoted content]
      | none => []

theorem length_lexemes_pos (item : Item) : 0 < item.lexemes.length := by
  rcases item with _ | ⟨_, _, _, _⟩ <;> simp [lexemes]

def state? : Item → Option (String × Bool)
  | .state name initial => some (name, initial)
  | .transition _ => none

def transition? : Item → Option TransitionOutline
  | .state _ _ => none
  | .transition outline => some outline

end Item

structure Program where
  machine : Option String
  items : List Item
  deriving DecidableEq, Repr, Inhabited

namespace Program

def lexemes (program : Program) : List Lexeme :=
  (match program.machine with
    | some name => [.keyword .machine, .name name]
    | none => []) ++
    program.items.flatMap Item.lexemes

def outline (program : Program) : Outline where
  machine := program.machine
  states := program.items.filterMap Item.state?
  transitions := program.items.filterMap Item.transition?

theorem machine_not_mem_lexemes (items : List Item) :
    Lexeme.keyword .machine ∉ items.flatMap Item.lexemes := by
  intro member
  obtain ⟨item, -, within⟩ := List.mem_flatMap.1 member
  rcases item with ⟨name, _ | _⟩ | ⟨name, source, target, _ | content⟩ <;>
    simp [Item.lexemes] at within

end Program

end FsmWorkbench
