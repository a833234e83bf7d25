import FsmWorkbench.Model.ParseError
import FsmWorkbench.Proofs.Notation.Grammar

set_option autoImplicit false

namespace FsmWorkbench.Grammar

inductive Mark where
  | plain
  | atomic
  | compound
  deriving DecidableEq, Repr, Inhabited

namespace Rule

-- Atomic and compound rules skip nothing between their parts. Only atomic ones hide what is tried
-- inside them.
def mark : Rule → Mark
  | .keyword _ | .name | .quotedInner => .atomic
  | .quoted => .compound
  | _ => .plain

def text : Rule → String
  | .program => "program"
  | .machineDecl => "machine_decl"
  | .stateDecl => "state_decl"
  | .transitionDecl => "transition_decl"
  | .guard => "guard"
  | .initialFlag => "initial_flag"
  | .keyword word => "`" ++ word.text ++ "`"
  | .name => "a name"
  | .quoted => "a quoted string"
  | .quotedInner => "string_inner"
  | .endOfInput => "end of input"

def all : List Rule :=
  [.endOfInput, .program, .machineDecl, .stateDecl, .transitionDecl, .guard, .initialFlag] ++
    Keyword.all.map .keyword ++ [.name, .quoted, .quotedInner]

def le (a b : Rule) : Bool :=
  all.idxOf a ≤ all.idxOf b

end Rule

-- Whether rules are tried inside an atomic one, and inside an odd number of negations.
structure Mode where
  hidden : Bool
  negated : Bool
  deriving DecidableEq, Repr, Inhabited

namespace Mode

def plain : Mode := ⟨false, false⟩

def around (mode : Mode) (label : Rule) : Mode :=
  if label.mark = .compound then { mode with hidden := false } else mode

def inside (mode : Mode) (label : Rule) : Mode :=
  if label.mark = .atomic then { mode with hidden := true } else mode.around label

end Mode

-- The furthest offset at which a rule has failed so far, and the rules that failed right there or,
-- inside a negation, that did not.
structure Attempts where
  offset : Nat
  expected : List Rule
  unexpected : List Rule
  deriving DecidableEq, Repr, Inhabited

namespace Attempts

def start : Attempts := ⟨0, [], []⟩

def countAt (attempts : Attempts) (offset : Nat) : Nat :=
  if attempts.offset = offset then attempts.expected.length + attempts.unexpected.length else 0

-- What is left of the attempts if those made inside a rule are forgotten that started at an offset
-- with the attempts given first.
def since (before after : Attempts) (offset : Nat) : Attempts :=
  if after.offset < offset then ⟨offset, [], []⟩
  else if before.offset = offset then
    { after with
        expected := after.expected.take before.expected.length
        unexpected := after.unexpected.take before.unexpected.length }
  else { after with expected := [], unexpected := [] }

-- A rule stands for the rules that failed inside it at its own start, unless there is just one.
def track (before after : Attempts) (mode : Mode) (label : Rule) (offset : Nat) : Attempts :=
  if mode.hidden then after
  else if after.countAt offset = before.countAt offset + 1 then after
  else if offset < after.offset then after
  else
    let kept := before.since after offset
    if mode.negated then { kept with unexpected := kept.unexpected ++ [label] }
    else { kept with expected := kept.expected ++ [label] }

def listed (rules : List Rule) : String :=
  alternatives ((rules.mergeSort Rule.le).eraseReps.map Rule.text)

def message (attempts : Attempts) : String :=
  match attempts.expected, attempts.unexpected with
  | [], [] => "unknown parsing error"
  | expected, [] => "expected " ++ listed expected
  | [], unexpected => "unexpected " ++ listed unexpected
  | expected, unexpected => "unexpected " ++ listed unexpected ++ "; expected " ++ listed expected

end Attempts

def iterateAttempts (step : Cursor → Outcome) (attempt : Cursor → Attempts → Attempts)
    (cursor : Cursor) (before : Attempts) : Attempts :=
  match step cursor with
  | none => attempt cursor before
  | some (_, next) =>
    if next.rest.length < cursor.rest.length then
      iterateAttempts step attempt next (attempt cursor before)
    else attempt cursor before
termination_by cursor.rest.length

namespace Expression

def attempts (mode : Mode) : Expression → Cursor → Attempts → Attempts
  | .any, _, before | .range _ _, _, before | .text _, _, before | .stop, _, before => before
  | .seq first second, cursor, before =>
    match first.run cursor with
    | none => first.attempts mode cursor before
    | some (_, next) => second.attempts mode next (first.attempts mode cursor before)
  | .choice first second, cursor, before =>
    match first.run cursor with
    | none => second.attempts mode cursor (first.attempts mode cursor before)
    | some _ => first.attempts mode cursor before
  | .optional inner, cursor, before => inner.attempts mode cursor before
  | .many inner, cursor, before => iterateAttempts inner.run (inner.attempts mode) cursor before
  | .without inner, cursor, before =>
    inner.attempts { mode with negated := !mode.negated } cursor before
  | .named label inner, cursor, before =>
    let after := inner.attempts (mode.inside label) cursor before
    -- Inside a negation a rule is in the way if it succeeds.
    if (inner.run cursor).isSome = mode.negated then
      before.track after (mode.around label) label cursor.offset
    else after

end Expression

def fault? (text : String) : Option Attempts :=
  match Expression.program.run ⟨0, text.toList⟩ with
  | some _ => none
  | none => some (Expression.program.attempts .plain ⟨0, text.toList⟩ .start)

end FsmWorkbench.Grammar
