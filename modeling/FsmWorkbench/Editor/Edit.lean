import FsmWorkbench.Layout
import FsmWorkbench.Text.Location

set_option autoImplicit false

namespace FsmWorkbench

open Text

structure TextEdit where
  extent : Extent
  newText : String
  deriving DecidableEq, Repr, Inhabited

-- Where a text ends: behind its final line feed, or else behind the bytes of its last line.
def endPosition (cs : List Char) : Position :=
  let all := lines cs
  if cs.getLast? = some '\n' then ⟨UInt32.ofNat all.length, 0⟩
  else ⟨UInt32.ofNat (all.length - 1), UInt32.ofNat ((all.getLast?.map size).getD 0)⟩

def layoutEdits (text : String) (result : Except ParseError String) : List TextEdit :=
  match result with
  | .ok newText =>
    if newText = text then [] else [⟨⟨⟨0, 0⟩, endPosition text.toList⟩, newText⟩]
  | .error _ => []

def LayoutOptions.ofRequest (tabSize : Nat) (insertSpaces indentBody : Bool) : LayoutOptions :=
  ⟨tabSize, !insertSpaces, indentBody⟩

end FsmWorkbench
