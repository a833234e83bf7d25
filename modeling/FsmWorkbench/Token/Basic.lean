import FsmWorkbench.Model.Basic

set_option autoImplicit false

namespace FsmWorkbench

inductive Keyword where
  | machine
  | state
  | transition
  | source
  | target
  | initial
  | guard
  deriving DecidableEq, Repr, Inhabited

namespace Keyword

def text : Keyword → String
  | .machine => "machine"
  | .state => "state"
  | .transition => "transition"
  | .source => "from"
  | .target => "to"
  | .initial => "initial"
  | .guard => "when"

def all : List Keyword :=
  [.machine, .state, .transition, .source, .target, .initial, .guard]

theorem mem_all (keyword : Keyword) : keyword ∈ all := by
  cases keyword <;> decide

def ofText? (text : String) : Option Keyword :=
  all.find? fun keyword => keyword.text == text

theorem ofText?_text (keyword : Keyword) : ofText? keyword.text = some keyword := by
  cases keyword <;> decide

theorem ofText?_eq_some_iff {text : String} {keyword : Keyword} :
    ofText? text = some keyword ↔ text = keyword.text := by
  constructor
  · intro h
    have same := List.find?_some h
    exact (by simpa using same : keyword.text = text).symm
  · rintro rfl
    exact ofText?_text keyword

end Keyword

inductive Lexeme where
  | keyword (word : Keyword)
  | name (text : String)
  | quoted (content : String)
  deriving DecidableEq, Repr, Inhabited

def Lexeme.ofWord (text : String) : Lexeme :=
  match Keyword.ofText? text with
  | some word => .keyword word
  | none => .name text

structure Token where
  lexeme : Lexeme
  span : Span
  deriving DecidableEq, Repr, Inhabited

-- The tokens of a text and the offset at which cutting stopped: at the end of the text, or before a
-- character that starts no token.
inductive TokenStream where
  | finished (offset : Nat)
  | blocked (offset : Nat)
  | token (head : Token) (rest : TokenStream)
  deriving DecidableEq, Repr, Inhabited

namespace TokenStream

def tokens : TokenStream → List Token
  | .finished _ | .blocked _ => []
  | .token head rest => head :: rest.tokens

def complete : TokenStream → Bool
  | .finished _ => true
  | .blocked _ => false
  | .token _ rest => rest.complete

def start : TokenStream → Nat
  | .finished offset | .blocked offset => offset
  | .token head _ => head.span.start

end TokenStream

end FsmWorkbench
