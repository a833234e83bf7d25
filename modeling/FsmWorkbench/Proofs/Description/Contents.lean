import FsmWorkbench.Model.Description
import FsmWorkbench.Proofs.Notation.Program

set_option autoImplicit false

namespace FsmWorkbench

namespace Json

def member? (name : String) : Json → Option Json
  | .object members => members.lookup name
  | _ => none

def text? : Json → Option String
  | .text value => some value
  | _ => none

def flag? : Json → Option Bool
  | .bool value => some value
  | _ => none

def items? : Json → Option (List Json)
  | .array items => some items
  | _ => none

def textOrNull? : Json → Option (Option String)
  | .null => some none
  | .text value => some (some value)
  | _ => none

end Json

structure StateEntry where
  name : String
  initial : Bool
  outgoing : List String
  deriving DecidableEq, Repr, Inhabited

def StateEntry.read? (json : Json) : Option StateEntry := do
  let name ← (← json.member? "name").text?
  let initial ← (← json.member? "initial").flag?
  let outgoing ← (← (← json.member? "outgoing").items?).mapM Json.text?
  return ⟨name, initial, outgoing⟩

def TransitionOutline.read? (json : Json) : Option TransitionOutline := do
  let name ← (← json.member? "name").text?
  let source ← (← json.member? "from").text?
  let target ← (← json.member? "to").text?
  let guard ← (json.member? "guard").mapM Json.text?
  return ⟨name, source, target, guard⟩

structure Description where
  language : String
  version : String
  machine : Option String
  initial : Option String
  states : List StateEntry
  transitions : List TransitionOutline
  deriving DecidableEq, Repr, Inhabited

namespace Description

def read? (json : Json) : Option Description := do
  let language ← (← json.member? "language").text?
  let version ← (← json.member? "version").text?
  let machine ← (← json.member? "machine").textOrNull?
  let initial ← (← json.member? "initial").textOrNull?
  let states ← (← (← json.member? "states").items?).mapM StateEntry.read?
  let transitions ← (← (← json.member? "transitions").items?).mapM TransitionOutline.read?
  return ⟨language, version, machine, initial, states, transitions⟩

-- What a description says of its model, apart from what follows from the rest of it.
def outline (description : Description) : Outline where
  machine := description.machine
  states := description.states.map fun state => (state.name, state.initial)
  transitions := description.transitions

end Description

theorem List.mapM_map_some {α β γ : Type} {read : β → Option γ} {write : α → β} {view : α → γ}
    (once : ∀ item, read (write item) = some (view item)) (items : List α) :
    (items.map write).mapM read = some (items.map view) := by
  induction items with
  | nil => rfl
  | cons item items ih => simp [ih, once]

theorem Json.textOrNull?_ofOption {α : Type} (text : α → String) (value : Option α) :
    (Json.ofOption (fun item => .text (text item)) value).textOrNull? = some (value.map text) := by
  cases value <;> rfl

namespace StateDecl

def entry (model : Model) (state : StateDecl) : StateEntry where
  name := state.name.text
  initial := state.initial
  outgoing := (model.outgoing state.name.text).map fun transition => transition.name.text

theorem read?_describe (model : Model) (state : StateDecl) :
    StateEntry.read? (state.describe model) = some (state.entry model) := by
  have name (transition : TransitionDecl) :
      Json.text? (.text transition.name.text) = some transition.name.text := rfl
  have read : StateEntry.read? (state.describe model) = do
      let outgoing ← ((model.outgoing state.name.text).map fun transition =>
        Json.text transition.name.text).mapM Json.text?
      return ⟨state.name.text, state.initial, outgoing⟩ := rfl
  rw [read, List.mapM_map_some name]
  rfl

end StateDecl

theorem TransitionDecl.read?_describe (transition : TransitionDecl) :
    TransitionOutline.read? transition.describe = some transition.outline := by
  obtain ⟨name, source, target, _ | guard, span⟩ := transition <;> rfl

namespace Model

def description (info : LanguageInfo) (model : Model) : Description where
  language := info.languageId
  version := info.version
  machine := model.machine.map fun machine => machine.name.text
  initial := model.initialStates.head?.map fun state => state.name.text
  states := model.states.map (StateDecl.entry model)
  transitions := model.transitions.map TransitionDecl.outline

theorem read?_describe (info : LanguageInfo) (model : Model) :
    Description.read? (model.describe info) = some (model.description info) := by
  have read : Description.read? (model.describe info) = do
      let machine ← (Json.ofOption (fun machine => .text machine.name.text)
        model.machine).textOrNull?
      let initial ← (Json.ofOption (fun state => .text state.name.text)
        model.initialStates.head?).textOrNull?
      let states ← (model.states.map (·.describe model)).mapM StateEntry.read?
      let transitions ←
        (model.transitions.map TransitionDecl.describe).mapM TransitionOutline.read?
      return ⟨info.languageId, info.version, machine, initial, states, transitions⟩ := rfl
  rw [read, Json.textOrNull?_ofOption, Json.textOrNull?_ofOption,
    List.mapM_map_some (StateDecl.read?_describe model),
    List.mapM_map_some TransitionDecl.read?_describe]
  rfl

theorem outline_description (info : LanguageInfo) (model : Model) :
    (model.description info).outline = model.outline := by
  rw [Description.outline, description, outline, List.map_map]
  rfl

end Model

end FsmWorkbench
