import FsmWorkbench.Text.Offset
import FsmWorkbench.Token.Basic
import Mathlib.Data.List.TakeWhile

set_option autoImplicit false

namespace FsmWorkbench.Grammar

open Text

inductive Rule where
  | program
  | machineDecl
  | stateDecl
  | transitionDecl
  | guard
  | initialFlag
  | keyword (word : Keyword)
  | name
  | quoted
  | quotedInner
  | endOfInput
  deriving DecidableEq, Repr, Inhabited

inductive Tree where
  | node (rule : Rule) (span : Span) (text : List Char) (children : List Tree)

namespace Tree

def rule : Tree → Rule
  | .node rule _ _ _ => rule

def span : Tree → Span
  | .node _ span _ _ => span

def text : Tree → String
  | .node _ _ text _ => String.ofList text

def children : Tree → List Tree
  | .node _ _ _ children => children

variable (label : Rule) (range : Span) (taken : List Char) (inner : List Tree)

@[simp] theorem rule_node : (node label range taken inner).rule = label := rfl

@[simp] theorem span_node : (node label range taken inner).span = range := rfl

@[simp] theorem text_node : (node label range taken inner).text = String.ofList taken := rfl

@[simp] theorem children_node : (node label range taken inner).children = inner := rfl

end Tree

structure Cursor where
  offset : Nat
  rest : List Char
  deriving DecidableEq, Repr, Inhabited

def Cursor.past (cursor : Cursor) (taken rest : List Char) : Cursor :=
  ⟨cursor.offset + size taken, rest⟩

inductive Expression where
  | any
  | range (first last : Char)
  | text (content : List Char)
  | stop
  | seq (first second : Expression)
  | choice (first second : Expression)
  | optional (inner : Expression)
  | many (inner : Expression)
  | without (inner : Expression)
  | named (label : Rule) (inner : Expression)

abbrev Outcome := Option (List Tree × Cursor)

-- Repetition ends at the first failure, and where nothing more is taken.
def iterate (step : Cursor → Outcome) (cursor : Cursor) : List Tree × Cursor :=
  match step cursor with
  | none => ([], cursor)
  | some (trees, next) =>
    if next.rest.length < cursor.rest.length then
      let (more, last) := iterate step next
      (trees ++ more, last)
    else (trees, next)
termination_by cursor.rest.length

namespace Expression

def run : Expression → Cursor → Outcome
  | .any, cursor =>
    match cursor.rest with
    | c :: rest => some ([], cursor.past [c] rest)
    | [] => none
  | .range first last, cursor =>
    match cursor.rest with
    | c :: rest => if first ≤ c ∧ c ≤ last then some ([], cursor.past [c] rest) else none
    | [] => none
  | .text content, cursor =>
    if content <+: cursor.rest then
      some ([], cursor.past content (cursor.rest.drop content.length))
    else none
  | .stop, cursor => if cursor.rest = [] then some ([], cursor) else none
  | .seq first second, cursor =>
    (first.run cursor).bind fun (trees, next) =>
      (second.run next).map fun (more, last) => (trees ++ more, last)
  | .choice first second, cursor => (first.run cursor).or (second.run cursor)
  | .optional inner, cursor => (inner.run cursor).or (some ([], cursor))
  | .many inner, cursor => some (iterate inner.run cursor)
  | .without inner, cursor =>
    match inner.run cursor with
    | some _ => none
    | none => some ([], cursor)
  | .named label inner, cursor =>
    (inner.run cursor).map fun (trees, next) =>
      let taken := cursor.rest.take (cursor.rest.length - next.rest.length)
      ([.node label ⟨cursor.offset, next.offset⟩ taken trees], next)

attribute [local simp] run

theorem run_seq {first second : Expression} {cursor middle : Cursor} {trees : List Tree}
    (went : first.run cursor = some (trees, middle)) :
    (seq first second).run cursor =
      (second.run middle).map fun (more, last) => (trees ++ more, last) := by
  rw [run, went]
  rfl

theorem run_seq_eq_none {first second : Expression} {cursor : Cursor}
    (failed : first.run cursor = none) : (seq first second).run cursor = none := by
  rw [run, failed]
  rfl

theorem run_choice (first second : Expression) (cursor : Cursor) :
    (choice first second).run cursor = (first.run cursor).or (second.run cursor) := by
  rw [run]

theorem run_without (inner : Expression) (cursor : Cursor) :
    (without inner).run cursor = if (inner.run cursor).isSome then none else some ([], cursor) := by
  rw [run]
  cases inner.run cursor <;> rfl

theorem run_text (offset : Nat) (content rest : List Char) :
    (text content).run ⟨offset, content ++ rest⟩ = some ([], ⟨offset + size content, rest⟩) := by
  simp [Cursor.past]

theorem run_char (offset : Nat) (c : Char) (rest : List Char) :
    (text [c]).run ⟨offset, c :: rest⟩ = some ([], ⟨offset + c.utf8Size, rest⟩) :=
  run_text offset [c] rest

theorem run_text_eq_none {content : List Char} {cursor : Cursor}
    (differs : ¬content <+: cursor.rest) : (text content).run cursor = none := by
  rw [run, if_neg differs]

end Expression

def Cursor.Reaches (cursor : Cursor) (taken : List Char) (next : Cursor) : Prop :=
  cursor.rest = taken ++ next.rest ∧ next.offset = cursor.offset + size taken

namespace Cursor.Reaches

variable {first second third : Cursor} {taken more : List Char}

theorem refl (cursor : Cursor) : cursor.Reaches [] cursor := by
  simp [Reaches]

theorem trans (left : first.Reaches taken second) (right : second.Reaches more third) :
    first.Reaches (taken ++ more) third := by
  constructor
  · rw [left.1, right.1, List.append_assoc]
  · rw [right.2, left.2, size_append, Nat.add_assoc]

theorem eq_of_length_le (reaches : first.Reaches taken second)
    (length : first.rest.length ≤ second.rest.length) : second = first := by
  obtain ⟨rest, offset⟩ := reaches
  have none : taken = [] := by
    rw [rest, List.length_append] at length
    exact List.length_eq_zero_iff.1 (by omega)
  subst none
  obtain ⟨_, _⟩ := first
  obtain ⟨_, _⟩ := second
  simp_all

end Cursor.Reaches

theorem exists_reaches_iterate {step : Cursor → Outcome}
    (once : ∀ cursor trees next, step cursor = some (trees, next) →
      ∃ taken, cursor.Reaches taken next)
    (cursor : Cursor) : ∃ taken, cursor.Reaches taken (iterate step cursor).2 := by
  fun_induction iterate step cursor with
  | case1 cursor => exact ⟨[], .refl cursor⟩
  | case2 cursor trees next stepped _ more last _ ih =>
    obtain ⟨taken, reaches⟩ := once _ _ _ stepped
    obtain ⟨further, later⟩ := ih
    simp_all only
    exact ⟨_, reaches.trans later⟩
  | case3 cursor trees next stepped _ => exact once _ _ _ stepped

theorem Expression.exists_reaches {expression : Expression} {cursor next : Cursor}
    {trees : List Tree} (taken : expression.run cursor = some (trees, next)) :
    ∃ taken, cursor.Reaches taken next := by
  induction expression generalizing cursor next trees with
  | any =>
    obtain ⟨offset, _ | ⟨c, rest⟩⟩ := cursor
    · cases taken
    · obtain ⟨rfl, rfl⟩ := Prod.mk.inj (Option.some.inj taken)
      exact ⟨[c], rfl, rfl⟩
  | range first last =>
    obtain ⟨offset, _ | ⟨c, rest⟩⟩ := cursor
    · cases taken
    · obtain ⟨-, same⟩ := Option.ite_none_right_eq_some.1 taken
      obtain ⟨rfl, rfl⟩ := Prod.mk.inj (Option.some.inj same)
      exact ⟨[c], rfl, rfl⟩
  | text content =>
    obtain ⟨starts, same⟩ := Option.ite_none_right_eq_some.1 taken
    obtain ⟨rfl, rfl⟩ := Prod.mk.inj (Option.some.inj same)
    exact ⟨content, (List.prefix_iff_eq_append.1 starts).symm, rfl⟩
  | stop =>
    obtain ⟨-, same⟩ := Option.ite_none_right_eq_some.1 taken
    obtain ⟨rfl, rfl⟩ := Prod.mk.inj (Option.some.inj same)
    exact ⟨[], .refl _⟩
  | seq first second left right =>
    obtain ⟨⟨trees, middle⟩, began, ended⟩ := Option.bind_eq_some_iff.1 taken
    obtain ⟨⟨more, last⟩, went, same⟩ := Option.map_eq_some_iff.1 ended
    obtain ⟨rfl, rfl⟩ := Prod.mk.inj same
    obtain ⟨_, before⟩ := left began
    obtain ⟨_, after⟩ := right went
    exact ⟨_, before.trans after⟩
  | choice first second left right =>
    rcases Option.or_eq_some_iff.1 taken with chosen | ⟨-, chosen⟩
    · exact left chosen
    · exact right chosen
  | optional inner ih =>
    rcases Option.or_eq_some_iff.1 taken with chosen | ⟨-, same⟩
    · exact ih chosen
    · obtain ⟨rfl, rfl⟩ := Prod.mk.inj (Option.some.inj same)
      exact ⟨[], .refl _⟩
  | many inner ih =>
    have last : (iterate inner.run cursor).2 = next := congrArg Prod.snd (Option.some.inj taken)
    rw [← last]
    exact exists_reaches_iterate (fun _ _ _ => ih) cursor
  | without inner =>
    simp only [run] at taken
    split at taken
    · cases taken
    · obtain ⟨rfl, rfl⟩ := Prod.mk.inj (Option.some.inj taken)
      exact ⟨[], .refl _⟩
  | named label inner ih =>
    obtain ⟨⟨trees, last⟩, went, same⟩ := Option.map_eq_some_iff.1 taken
    obtain ⟨rfl, rfl⟩ := Prod.mk.inj same
    exact ih went

theorem Expression.run_named {label : Rule} {inner : Expression} {cursor next : Cursor}
    {trees : List Tree} {taken : List Char} (went : inner.run cursor = some (trees, next))
    (reaches : cursor.Reaches taken next) :
    (named label inner).run cursor =
      some ([.node label ⟨cursor.offset, next.offset⟩ taken trees], next) := by
  simp [run, went, reaches.1]

theorem Expression.run_named_eq_none {label : Rule} {inner : Expression} {cursor : Cursor}
    (failed : inner.run cursor = none) : (named label inner).run cursor = none := by
  rw [run, failed]
  rfl

end FsmWorkbench.Grammar
