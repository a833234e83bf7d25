import FsmWorkbench.Language
import FsmWorkbench.Model.Occurrence

set_option autoImplicit false

namespace FsmWorkbench

structure HoverInfo where
  markdown : String
  span : Span
  deriving DecidableEq, Repr, Inhabited

namespace MachineDecl

def text (machine : MachineDecl) : String :=
  "machine " ++ machine.name.text

end MachineDecl

namespace StateDecl

def text (state : StateDecl) : String :=
  "state " ++ state.name.text ++ if state.initial then " initial" else ""

end StateDecl

namespace TransitionDecl

def text (transition : TransitionDecl) : String :=
  s!"transition {transition.name.text} from {transition.source.text} to {transition.target.text}" ++
    match transition.guard with
    | some guard => " when \"" ++ guard ++ "\""
    | none => ""

end TransitionDecl

namespace Hover

def codeBlock (language : LanguageInfo) (line : String) : String :=
  "```" ++ language.languageId ++ "\n" ++ line ++ "\n```\n"

def quoted (name : String) : String :=
  "`" ++ name ++ "`"

def maxListed : Nat := 8

def namesLine (label : String) (names : List String) : String :=
  "\n**" ++ label ++ ":** " ++
    if names.isEmpty then "none"
    else
      let missing := names.length - maxListed
      ", ".intercalate ((names.take maxListed).map quoted) ++
        (if missing = 0 then "" else s!" … and {missing} more") ++ "\n"

def machine (language : LanguageInfo) (model : Model) (decl : MachineDecl) : String :=
  codeBlock language decl.text ++
    s!"\n{model.states.length} state(s), {model.transitions.length} transition(s)" ++
    match model.initialStates.head? with
    | some state => ", starts in " ++ quoted state.name.text
    | none => ""

def state (language : LanguageInfo) (model : Model) (decl : StateDecl) : String :=
  let names (transitions : List TransitionDecl) := transitions.map fun t => t.name.text
  codeBlock language decl.text ++
    namesLine "Incoming" (names (model.incoming decl.name.text)) ++
    namesLine "Outgoing" (names (model.outgoing decl.name.text))

def transition (language : LanguageInfo) (decl : TransitionDecl) : String :=
  codeBlock language decl.text ++
    "\n" ++ quoted decl.source.text ++ " → " ++ quoted decl.target.text

def markdown? (language : LanguageInfo) (model : Model) (occurrence : Occurrence) : Option String :=
  let name := occurrence.name.text
  match occurrence.kind with
  | .machine => model.machine.map (machine language model)
  | .state =>
    match model.state? name with
    | some decl => some (state language model decl)
    | none => some ("Undefined state " ++ quoted name)
  | .transition => (model.transition? name).map (transition language)

end Hover

def hoverAt? (language : LanguageInfo) (model : Model) (offset : Nat) : Option HoverInfo :=
  (model.symbolAt? offset).bind fun occurrence =>
    (Hover.markdown? language model occurrence).map fun markdown =>
      ⟨markdown, occurrence.name.span⟩

end FsmWorkbench
