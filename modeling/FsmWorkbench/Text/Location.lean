import FsmWorkbench.Text.Offset

set_option autoImplicit false

namespace FsmWorkbench.Text

structure Position where
  line : UInt32
  character : UInt32
  deriving DecidableEq, Repr, Inhabited

structure Extent where
  start : Position
  stop : Position
  deriving DecidableEq, Repr, Inhabited

def Position.le (a b : Position) : Bool :=
  a.line < b.line || (a.line == b.line && a.character ≤ b.character)

def Extent.le (a b : Extent) : Bool :=
  if a.start = b.start then a.stop.le b.stop else a.start.le b.start

-- The number of UTF-16 units of a character: two outside the first plane.
def units (c : Char) : Nat :=
  if c.toNat < 0x10000 then 1 else 2

theorem units_pos (c : Char) : 0 < units c := by
  unfold units; split <;> decide

def breadth : List Char → Nat
  | [] => 0
  | c :: rest => units c + breadth rest

-- The line and column that reading up to a byte offset leads to, if columns are as wide as `width`
-- says. An offset inside a character counts as the start of that character, and one after the text
-- as its end.
def advance (width : Char → Nat) : List Char → (offset line column : Nat) → Nat × Nat
  | [], _, line, column => (line, column)
  | c :: rest, offset, line, column =>
    if offset < c.utf8Size then (line, column)
    else if c = '\n' then advance width rest (offset - c.utf8Size) (line + 1) 0
    else advance width rest (offset - c.utf8Size) line (column + width c)

def positionOf (cs : List Char) (offset : Nat) : Position :=
  let (line, column) := advance units cs offset 0 0
  ⟨UInt32.ofNat line, UInt32.ofNat column⟩

-- Both count from one here, and every character is one column wide.
def lineColumnOf (cs : List Char) (offset : Nat) : Nat × Nat :=
  let (line, column) := advance (fun _ => 1) cs offset 0 0
  (line + 1, column + 1)

def seekLine? : List Char → (line offset : Nat) → Option (List Char × Nat)
  | cs, 0, offset => some (cs, offset)
  | [], _ + 1, _ => none
  | c :: rest, line + 1, offset =>
    if c = '\n' then seekLine? rest line (offset + c.utf8Size)
    else seekLine? rest (line + 1) (offset + c.utf8Size)

-- The byte offset of a column, counted on from a given offset. The line feed is the last column
-- of its line, and no column lies inside a surrogate pair.
def seekColumn? : List Char → (column offset : Nat) → Option Nat
  | _, 0, offset => some offset
  | [], _ + 1, _ => none
  | c :: rest, column + 1, offset =>
    if c = '\n' then if column = 0 then some (offset + c.utf8Size) else none
    else if units c ≤ column + 1 then
      seekColumn? rest (column + 1 - units c) (offset + c.utf8Size)
    else none

def offsetOf? (cs : List Char) (position : Position) : Option Nat :=
  (seekLine? cs position.line.toNat 0).bind fun (rest, offset) =>
    seekColumn? rest position.character.toNat offset

@[simp] theorem positionOf_zero (cs : List Char) : positionOf cs 0 = ⟨0, 0⟩ := by
  cases cs with
  | nil => rfl
  | cons c rest => simp [positionOf, advance, c.utf8Size_pos]

@[simp] theorem offsetOf?_zero (cs : List Char) : offsetOf? cs ⟨0, 0⟩ = some 0 := by
  simp [offsetOf?, seekLine?, seekColumn?]

end FsmWorkbench.Text
