import FsmWorkbench.Model.Basic
import FsmWorkbench.Text.Location

set_option autoImplicit false

namespace FsmWorkbench

namespace Text

def startsBehind : List Char → (offset : Nat) → List Nat
  | [], _ => []
  | c :: rest, offset =>
    if c = '\n' then (offset + c.utf8Size) :: startsBehind rest (offset + c.utf8Size)
    else startsBehind rest (offset + c.utf8Size)

structure LineIndex where
  text : List Char
  starts : List Nat
  starts_eq : starts = 0 :: startsBehind text 0

namespace LineIndex

def ofText (cs : List Char) : LineIndex :=
  ⟨cs, 0 :: startsBehind cs 0, rfl⟩

def stepBack? (cs : List Char) : (offset : Nat) → Option Nat
  | 0 => if Boundary cs 0 then some 0 else none
  | offset + 1 => if Boundary cs (offset + 1) then some (offset + 1) else stepBack? cs offset

def slice? (cs : List Char) (start stop : Nat) : Option (List Char) :=
  (cut? cs stop).bind fun (front, _) => (cut? front start).map Prod.snd

def lineAt (index : LineIndex) (offset : Nat) : Nat :=
  index.starts.countP (· ≤ offset) - 1

def position? (index : LineIndex) (offset : Nat) : Option Position :=
  (stepBack? index.text (min offset (size index.text))).bind fun place =>
    let line := index.lineAt place
    (slice? index.text (index.starts[line]?.getD 0) place).map fun part =>
      ⟨UInt32.ofNat line, UInt32.ofNat (breadth part)⟩

-- None of the steps to a position fails.
def positionOf (index : LineIndex) (offset : Nat) : Position :=
  (index.position? offset).getD ⟨0, 0⟩

def offsetOf? (index : LineIndex) (position : Position) : Option Nat :=
  let line := position.line.toNat
  index.starts[line]?.bind fun start =>
    (slice? index.text start (index.starts[line + 1]?.getD (size index.text))).bind fun part =>
      seekColumn? part position.character.toNat start

end LineIndex

instance : Coe (List Char) LineIndex := ⟨LineIndex.ofText⟩

end Text

def extentOf (index : Text.LineIndex) (span : Span) : Text.Extent :=
  ⟨index.positionOf span.start, index.positionOf span.stop⟩

end FsmWorkbench
