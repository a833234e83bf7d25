import FsmWorkbench.Text.CharClass

set_option autoImplicit false

namespace FsmWorkbench.Text

def blanks : CharClass where
  runs :=
    [(0x09, 0x0D), (0x20, 0x20), (0x85, 0x85), (0xA0, 0xA0), (0x1680, 0x1680), (0x2000, 0x200A),
      (0x2028, 0x2029), (0x202F, 0x202F), (0x205F, 0x205F), (0x3000, 0x3000)]

def isBlank (c : Char) : Bool :=
  blanks.contains c

def trimStart (cs : List Char) : List Char :=
  cs.dropWhile isBlank

def trimEnd (cs : List Char) : List Char :=
  (cs.reverse.dropWhile isBlank).reverse

def trim (cs : List Char) : List Char :=
  trimEnd (trimStart cs)

def parts : List Char → List (List Char)
  | [] => [[]]
  | c :: rest =>
    if isBlank c then [] :: parts rest
    else
      match parts rest with
      | [] => [[c]]
      | part :: more => (c :: part) :: more

def words (cs : List Char) : List (List Char) :=
  (parts cs).filter fun part => !part.isEmpty

end FsmWorkbench.Text
