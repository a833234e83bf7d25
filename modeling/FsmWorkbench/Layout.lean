import FsmWorkbench.Model.Reader
import FsmWorkbench.Text.Blank
import FsmWorkbench.Text.Lines

set_option autoImplicit false

namespace FsmWorkbench

open Text

structure LayoutOptions where
  width : Nat
  tabs : Bool
  indentBody : Bool
  deriving DecidableEq, Repr, Inhabited

namespace LayoutOptions

def standard : LayoutOptions := ⟨4, false, true⟩

def indent (options : LayoutOptions) : List Char :=
  if options.tabs then ['\t'] else List.replicate options.width ' '

end LayoutOptions

inductive LineStage where
  | opening
  | code
  | gap
  | quoted
  deriving DecidableEq, Repr, Inhabited

-- Lays out the rest of a line. A comment takes the rest of its line, and one space goes before it
-- unless it opens the line.
def spaceOut (stage : LineStage) : List Char → List Char
  | [] => []
  | c :: rest =>
    if stage = .quoted then c :: spaceOut (if c = '"' then .code else .quoted) rest
    else if c = '/' ∧ rest.head? = some '/' then
      (if stage = .opening then [] else [' ']) ++ trimEnd (c :: rest)
    else if isBlank c then spaceOut (if stage = .opening then .opening else .gap) rest
    else
      (if stage = .gap then [' '] else []) ++
        c :: spaceOut (if c = '"' then .quoted else .code) rest

def opensMachine (line : List Char) : Bool :=
  (words line).head? == some Keyword.machine.text.toList

-- Lays out lines one by one. `gap` says whether a blank line is waiting to be written, and
-- `written` whether any line has been written.
def layoutLines (indent : List Char) (gap written : Bool) : List (List Char) → List Char
  | [] => []
  | line :: rest =>
    let content := trim line
    if content.isEmpty then layoutLines indent written written rest
    else
      let spaced := spaceOut .opening content
      (if gap then ['\n'] else []) ++ (if opensMachine spaced then [] else indent) ++ spaced ++
        '\n' :: layoutLines indent false true rest

def layoutAs (options : LayoutOptions) (model : Model) (text : String) : String :=
  let indent := if options.indentBody && model.machine.isSome then options.indent else []
  String.ofList (layoutLines indent false false (lines text.toList))

end FsmWorkbench
