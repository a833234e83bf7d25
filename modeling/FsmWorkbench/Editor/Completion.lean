import FsmWorkbench.Editor.Runs
import FsmWorkbench.Model.Basic
import FsmWorkbench.Text.Blank
import FsmWorkbench.Text.Offset
import FsmWorkbench.Token.Basic

set_option autoImplicit false

namespace FsmWorkbench

open Text

inductive ItemKind where
  | state
  | keyword
  deriving DecidableEq, Repr, Inhabited

namespace ItemKind

-- The numbers of the editor protocol for a member of an enumeration and for a keyword.
def number : ItemKind → Nat
  | .state => 20
  | .keyword => 14

def rank : ItemKind → Nat
  | .state => 0
  | .keyword => 1

end ItemKind

structure CompletionItem where
  label : String
  kind : ItemKind
  detail : String
  deriving DecidableEq, Repr, Inhabited

namespace CompletionItem

def ofKeyword (keyword : Keyword) : CompletionItem :=
  ⟨keyword.text, .keyword, "Keyword"⟩

def ofState (state : StateDecl) : CompletionItem :=
  ⟨state.name.text, .state, if state.initial then "State (initial)" else "State"⟩

def le (a b : CompletionItem) : Bool :=
  if a.kind = b.kind then a.label ≤ b.label else a.kind.rank ≤ b.kind.rank

def same (a b : CompletionItem) : Bool :=
  a.label == b.label && a.kind == b.kind

end CompletionItem

inductive CompletionContext where
  | declaration
  | stateName
  | keyword (word : Keyword)
  | newName
  deriving DecidableEq, Repr, Inhabited

namespace CompletionContext

def ofWords? (words : List String) : Option CompletionContext :=
  if words = [] then some .declaration
  else if words.getLast? = some "from" ∨ words.getLast? = some "to" then some .stateName
  else
    match words with
    | ["state", _] => some (.keyword .initial)
    | ["transition", _] => some (.keyword .source)
    | ["transition", _, "from", _] => some (.keyword .target)
    | ["transition", _, "from", _, "to", _] => some (.keyword .guard)
    | ["machine"] | ["state"] | ["transition"] => some .newName
    -- The declaration is complete, so another one may start.
    | ["machine", _] | ["state", _, "initial"] => some .declaration
    | _ => none

def items (model : Option Model) : CompletionContext → List CompletionItem
  | .declaration =>
    let named := model.any fun known => known.machine.isSome
    let words : List Keyword := (if named then [] else [.machine]) ++ [.state, .transition]
    words.map CompletionItem.ofKeyword
  | .stateName => (model.elim [] Model.states).map CompletionItem.ofState
  | .keyword word => [CompletionItem.ofKeyword word]
  | .newName => []

end CompletionContext

def hasComment : List Char → Bool
  | [] => false
  | c :: rest => (c == '/' && rest.head? == some '/') || hasComment rest

def lastLine (cs : List Char) : List Char :=
  (cs.reverse.takeWhile (· != '\n')).reverse

def finishedWords (line : List Char) : List String :=
  let all := (words line).map String.ofList
  if line.getLast?.any fun c => !isBlank c then all.dropLast else all

def completionContext? (text : String) (offset : Nat) : Option CompletionContext :=
  (cut? text.toList (min offset (size text.toList))).bind fun (before, _) =>
    let line := lastLine before
    if hasComment line then none else CompletionContext.ofWords? (finishedWords line)

def complete (text : String) (offset : Nat) (model : Option Model) : List CompletionItem :=
  match completionContext? text offset with
  | none => []
  | some context =>
    firstOfRuns CompletionItem.same ((context.items model).mergeSort CompletionItem.le)

end FsmWorkbench
