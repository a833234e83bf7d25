import FsmWorkbench.Text.Location
import FsmWorkbench.Token.Basic

set_option autoImplicit false

namespace FsmWorkbench

inductive Expectation where
  | endOfInput
  | document
  | keyword (word : Keyword)
  | name
  | quoted
  deriving DecidableEq, Repr, Inhabited

def Expectation.text : Expectation → String
  | .endOfInput => "end of input"
  | .document => "program"
  | .keyword word => "`" ++ word.text ++ "`"
  | .name => "a name"
  | .quoted => "a quoted string"

-- "a", "a or b", "a, b, or c"
def alternatives : List String → String
  | [] => ""
  | [a] => a
  | [a, b] => a ++ " or " ++ b
  | a :: b :: more => go a (b :: more)
where
  go (done : String) : List String → String
    | [] => done
    | [last] => done ++ ", or " ++ last
    | next :: more => go (done ++ ", " ++ next) more

structure ParseError where
  offset : Nat
  expected : List Expectation
  line : Nat
  column : Nat
  deriving DecidableEq, Repr, Inhabited

namespace ParseError

def locate (text : String) (offset : Nat) (expected : List Expectation) : ParseError :=
  let (line, column) := Text.lineColumnOf text.toList offset
  { offset, expected, line, column }

def message (error : ParseError) : String :=
  "expected " ++ alternatives (error.expected.map Expectation.text)

def display (error : ParseError) : String :=
  s!"syntax error at {error.line}:{error.column}: {error.message}"

end ParseError

end FsmWorkbench
