set_option autoImplicit false

namespace FsmWorkbench

inductive Json where
  | null
  | bool (value : Bool)
  | number (value : Int)
  | text (value : String)
  | array (items : List Json)
  | object (members : List (String × Json))
  deriving Repr, Inhabited

namespace Json

def ofOption {α : Type} (encode : α → Json) : Option α → Json
  | some value => encode value
  | none => .null

def hexDigit (n : Nat) : Char :=
  if n < 10 then Char.ofNat (48 + n) else Char.ofNat (87 + n)

def escape (c : Char) : List Char :=
  if c = '"' then ['\\', '"']
  else if c = '\\' then ['\\', '\\']
  else if c = '\x08' then ['\\', 'b']
  else if c = '\x0c' then ['\\', 'f']
  else if c = '\n' then ['\\', 'n']
  else if c = '\r' then ['\\', 'r']
  else if c = '\t' then ['\\', 't']
  else if c.toNat < 0x20 then
    ['\\', 'u', '0', '0', hexDigit (c.toNat / 16), hexDigit (c.toNat % 16)]
  else [c]

def quote (text : String) : List Char :=
  '"' :: text.toList.flatMap escape ++ ['"']

inductive Spread where
  | compact
  | lines (depth : Nat)
  deriving DecidableEq, Repr

namespace Spread

def deeper : Spread → Spread
  | .compact => .compact
  | .lines depth => .lines (depth + 1)

def margin : Spread → List Char
  | .compact => []
  | .lines depth => '\n' :: List.replicate (2 * depth) ' '

def colon : Spread → List Char
  | .compact => [':']
  | .lines _ => [':', ' ']

end Spread

mutual

def write (spread : Spread) : Json → List Char
  | .null => "null".toList
  | .bool value => (toString value).toList
  | .number value => (toString value).toList
  | .text value => quote value
  | .array [] => ['[', ']']
  | .array (item :: rest) =>
    '[' :: spread.deeper.margin ++ write spread.deeper item ++ writeItems spread.deeper rest ++
      spread.margin ++ [']']
  | .object [] => ['\x7b', '\x7d']
  | .object ((key, value) :: rest) =>
    '\x7b' :: spread.deeper.margin ++ quote key ++ spread.colon ++ write spread.deeper value ++
      writeMembers spread.deeper rest ++ spread.margin ++ ['\x7d']

def writeItems (spread : Spread) : List Json → List Char
  | [] => []
  | item :: rest => ',' :: spread.margin ++ write spread item ++ writeItems spread rest

def writeMembers (spread : Spread) : List (String × Json) → List Char
  | [] => []
  | (key, value) :: rest =>
    ',' :: spread.margin ++ quote key ++ spread.colon ++ write spread value ++
      writeMembers spread rest

end

def render (pretty : Bool) (value : Json) : String :=
  String.ofList (write (if pretty then .lines 0 else .compact) value)

end Json

end FsmWorkbench
