import FsmWorkbench.Editor.Runs
import FsmWorkbench.Model.Occurrence
import FsmWorkbench.Text.LineIndex

set_option autoImplicit false

namespace FsmWorkbench

open Text

namespace Model

def symbolAtPosition? (model : Model) (index : LineIndex) (position : Position) :
    Option Occurrence :=
  (index.offsetOf? position).bind model.symbolAt?

-- A name that declares something is its own declaration.
def definitionAt? (model : Model) (index : LineIndex) (position : Position) : Option Extent :=
  (model.symbolAtPosition? index position).bind fun occurrence =>
    let found :=
      if occurrence.definition then some occurrence.name
      else model.definition? occurrence.kind occurrence.name.text
    found.map fun name => extentOf index name.span

def referencesAt (model : Model) (index : LineIndex) (position : Position) (declaration : Bool) :
    List Extent :=
  match model.symbolAtPosition? index position with
  | none => []
  | some occurrence =>
    let uses := model.references occurrence.kind occurrence.name.text
    let declared :=
      if declaration then (model.definition? occurrence.kind occurrence.name.text).toList else []
    let extents := (uses ++ declared).map fun name => extentOf index name.span
    firstOfRuns (· == ·) (extents.mergeSort Extent.le)

end Model

end FsmWorkbench
