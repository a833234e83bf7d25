import FsmWorkbench.Proofs.Notation.Agreement
import FsmWorkbench.Proofs.Notation.Attempts

set_option autoImplicit false

namespace FsmWorkbench

namespace TokenStream

def Ordered : TokenStream → Prop
  | .finished _ | .blocked _ => True
  | .token head rest => head.span.start < rest.start ∧ rest.Ordered

theorem ordered_scan (offset : Nat) (cs : List Char) :
    offset ≤ (scan offset cs).start ∧ (scan offset cs).Ordered := by
  fun_induction scan offset cs with
  | case1 | case6 | case7 => exact ⟨Nat.le_refl _, trivial⟩
  | case2 offset c rest _ ih => exact ⟨by omega, ih.2⟩
  | case3 offset c rest _ _ ih => exact ⟨by omega, ih.2⟩
  | case4 offset c rest _ _ _ word =>
    next ih =>
    have positive : 0 < Text.size word := by
      rw [Text.size_cons]
      exact Nat.add_pos_left c.utf8Size_pos _
    exact ⟨Nat.le_refl _, by dsimp only; omega, ih.2⟩
  | case5 offset rest content after _ _ _ _ next =>
    next ih =>
    exact ⟨Nat.le_refl _, by dsimp only; omega, ih.2⟩

end TokenStream

namespace Grammar

open TokenStream

namespace Attempts

variable {attempts before after : Attempts} {offset : Nat} {label : Rule}

def miss (attempts : Attempts) (offset : Nat) (label : Rule) : Attempts :=
  if offset < attempts.offset then attempts
  else if attempts.offset = offset then { attempts with expected := attempts.expected ++ [label] }
  else ⟨offset, [label], []⟩

theorem miss_of_lt (further : offset < attempts.offset) : attempts.miss offset label = attempts :=
  if_pos further

theorem miss_of_behind (behind : attempts.offset < offset) :
    attempts.miss offset label = ⟨offset, [label], []⟩ := by
  rw [miss, if_neg (by omega), if_neg (by omega)]

theorem miss_here (offset : Nat) (expected unexpected : List Rule) (label : Rule) :
    miss ⟨offset, expected, unexpected⟩ offset label =
      ⟨offset, expected ++ [label], unexpected⟩ := by
  rw [miss, if_neg (Nat.lt_irrefl _), if_pos rfl]

theorem start_miss (offset : Nat) (label : Rule) :
    Attempts.start.miss offset label = ⟨offset, [label], []⟩ := by
  obtain rfl | later := Nat.eq_zero_or_pos offset
  · rfl
  · exact miss_of_behind later

theorem le_offset_miss (attempts : Attempts) (offset : Nat) (label : Rule) :
    offset ≤ (attempts.miss offset label).offset := by
  rw [miss]
  split
  · omega
  · split
    · next same => exact same.ge
    · exact Nat.le_refl _

theorem offset_miss_of_le (reached : attempts.offset ≤ offset) :
    (attempts.miss offset label).offset = offset := by
  rw [miss, if_neg (Nat.not_lt.2 reached)]
  split
  · next same => exact same
  · rfl

theorem track_self (attempts : Attempts) (label : Rule) (offset : Nat) :
    attempts.track attempts .plain label offset = attempts.miss offset label := by
  have alone : attempts.countAt offset ≠ attempts.countAt offset + 1 := by omega
  rw [track, if_neg (by simp [Mode.plain]), if_neg alone, miss, since]
  split
  · rfl
  · next reached =>
    simp only [Mode.plain, Bool.false_eq_true, if_false]
    by_cases same : attempts.offset = offset
    · rw [if_neg (by omega), if_pos same, if_pos same, List.take_length, List.take_length]
    · rw [if_pos (by omega), if_neg same]
      rfl

theorem track_of_lt (further : offset < after.offset) :
    before.track after .plain label offset = after := by
  rw [track, if_neg (by simp [Mode.plain]), if_pos further, ite_self]

theorem track_miss (attempts : Attempts) (label other : Rule) (offset : Nat) :
    attempts.track (attempts.miss offset other) .plain label offset =
      attempts.miss offset other := by
  by_cases further : offset < attempts.offset
  · rw [miss_of_lt further, track_of_lt further]
  · have one : (attempts.miss offset other).countAt offset = attempts.countAt offset + 1 := by
      rw [miss, if_neg further]
      split
      · next same =>
        rw [countAt, countAt, if_pos same, if_pos same, List.length_append]
        exact Nat.add_right_comm ..
      · next differs => rw [countAt, countAt, if_pos rfl, if_neg differs]; rfl
    rw [track, if_neg (by simp [Mode.plain]), if_pos one]

end Attempts

theorem Mode.plain_around (label : Rule) : plain.around label = plain := by
  rw [around]
  split <;> rfl

namespace Expression

def ruleFree : Expression → Bool
  | .any | .range _ _ | .text _ | .stop => true
  | .seq first second | .choice first second => first.ruleFree && second.ruleFree
  | .optional inner | .many inner | .without inner => inner.ruleFree
  | .named _ _ => false

theorem iterateAttempts_of_still {step : Cursor → Outcome}
    {attempt : Cursor → Attempts → Attempts}
    (still : ∀ cursor before, attempt cursor before = before)
    (cursor : Cursor) (before : Attempts) : iterateAttempts step attempt cursor before = before := by
  fun_induction iterateAttempts step attempt cursor before with
  | case1 => exact still ..
  | case2 cursor before _ next _ shorter ih => rw [ih, still]
  | case3 => exact still ..

theorem attempts_seq_of_still {mode : Mode} {first second : Expression} {before : Attempts}
    (left : ∀ cursor, first.attempts mode cursor before = before)
    (right : ∀ cursor, second.attempts mode cursor before = before) (cursor : Cursor) :
    (seq first second).attempts mode cursor before = before := by
  rw [attempts, left]
  split
  · rfl
  · exact right _

theorem attempts_of_ruleFree {expression : Expression} (free : expression.ruleFree = true)
    (mode : Mode) (cursor : Cursor) (before : Attempts) :
    expression.attempts mode cursor before = before := by
  induction expression generalizing mode cursor before with
  | any | range | text | stop => rfl
  | seq first second left right =>
    obtain ⟨freeFirst, freeSecond⟩ := Bool.and_eq_true_iff.1 free
    exact attempts_seq_of_still (fun _ => left freeFirst ..) (fun _ => right freeSecond ..) cursor
  | choice first second left right =>
    obtain ⟨freeFirst, freeSecond⟩ := Bool.and_eq_true_iff.1 free
    rw [attempts]
    split
    · rw [right freeSecond, left freeFirst]
    · exact left freeFirst ..
  | optional inner ih => exact ih free ..
  | many inner ih => exact iterateAttempts_of_still (ih free mode) cursor before
  | without inner ih => exact ih free ..
  | named => cases free

theorem attempts_skip (cursor : Cursor) (before : Attempts) :
    skip.attempts .plain cursor before = before :=
  attempts_of_ruleFree rfl ..

theorem attempts_named_of_still {label : Rule} {inner : Expression} {cursor : Cursor}
    {before : Attempts} (still : inner.attempts (Mode.plain.inside label) cursor before = before) :
    (named label inner).attempts .plain cursor before =
      match (named label inner).run cursor with
      | none => before.miss cursor.offset label
      | some _ => before := by
  rw [attempts, still, Mode.plain_around, Attempts.track_self, run]
  cases inner.run cursor <;> rfl

end Expression

theorem Cursor.ordered_stream (cursor : Cursor) : cursor.stream.Ordered :=
  (ordered_scan cursor.offset cursor.rest).2

theorem Agrees.map_stream {α : Type} {holds : List Tree → Cursor → α → Prop} {outcome : Outcome}
    {result : Option (α × TokenStream)} (agrees : Agrees holds outcome result) :
    outcome.map (fun taken => taken.2.stream) = result.map Prod.snd := by
  cases agrees <;> rfl

structure Leaf {α : Type} (expression : Expression)
    (read : TokenStream → Option (α × TokenStream)) (label : Rule) : Prop where
  attempts : ∀ cursor before, expression.attempts .plain cursor before =
    match expression.run cursor with
    | none => before.miss cursor.offset label
    | some _ => before
  reads : ∀ cursor : Cursor, cursor.Settled →
    (expression.run cursor).map (fun taken => taken.2.stream) = (read cursor.stream).map Prod.snd
  token : ∀ stream value rest, read stream = some (value, rest) → ∃ head, stream = .token head rest

theorem leaf_keyword (word : Keyword) :
    Leaf (.keyword word) (keyword? word) (.keyword word) where
  attempts _ _ :=
    Expression.attempts_named_of_still (Expression.attempts_of_ruleFree (by cases word <;> rfl) ..)
  reads cursor settled := (reads_keyword word cursor settled).map_stream
  token _ _ _ found := ⟨_, keyword?_eq_some_iff.1 found⟩

theorem leaf_name : Leaf .name name? .name where
  attempts _ _ :=
    Expression.attempts_named_of_still (Expression.attempts_of_ruleFree rfl ..)
  reads cursor settled := (reads_name cursor settled).map_stream
  token _ _ _ found := ⟨_, name?_eq_some_iff.1 found⟩

theorem leaf_quoted : Leaf .quoted quoted? .quoted where
  attempts cursor before := by
    apply Expression.attempts_named_of_still
    have inner (middle : Cursor) :
        Expression.quotedInner.attempts .plain middle before = before := by
      have ran := Expression.run_quotedInner middle.offset middle.rest
      rw [Expression.quotedInner] at ran ⊢
      rw [Expression.attempts_named_of_still (Expression.attempts_of_ruleFree rfl ..), ran]
    have quote (middle : Cursor) :
        (Expression.text ['"']).attempts .plain middle before = before := rfl
    exact Expression.attempts_seq_of_still quote
      (Expression.attempts_seq_of_still inner quote) cursor
  reads cursor settled := (reads_quoted cursor settled).map_stream
  token _ _ _ found := ⟨_, quoted?_eq_some_iff.1 found⟩

-- What is tried where an expression goes by tokens, and the rule that its own failing leaves.
structure Tries (expression : Expression) (lead : Rule)
    (tries : TokenStream → Attempts → Attempts) : Prop where
  attempts : ∀ cursor : Cursor, cursor.Settled → ∀ before,
    expression.attempts .plain cursor before = tries cursor.stream before
  failing : ∀ cursor : Cursor, cursor.Settled → expression.run cursor = none → ∀ before,
    tries cursor.stream before = before.miss cursor.offset lead ∨
      cursor.offset < (tries cursor.stream before).offset

end Grammar

def TokenStream.expect {α : Type} (read : TokenStream → Option (α × TokenStream))
    (label : Grammar.Rule) (follow : TokenStream → Grammar.Attempts → Grammar.Attempts)
    (stream : TokenStream) (before : Grammar.Attempts) : Grammar.Attempts :=
  match read stream with
  | none => before.miss stream.start label
  | some (_, rest) => follow rest before

namespace Grammar

open TokenStream

section Trying

variable {α : Type} {first second : Expression} {read : TokenStream → Option (α × TokenStream)}
  {label lead : Rule} {attempt : TokenStream → Attempts → Attempts}

theorem Leaf.cases (leaf : Leaf first read label) {cursor : Cursor} (settled : cursor.Settled) :
    first.run cursor = none ∧ read cursor.stream = none ∨
      ∃ trees next value, first.run cursor = some (trees, next) ∧
        read cursor.stream = some (value, next.stream) ∧ cursor.offset < next.stream.start := by
  have agrees := leaf.reads cursor settled
  cases ran : first.run cursor with
  | none =>
    rw [ran] at agrees
    exact .inl ⟨rfl, Option.map_eq_none_iff.1 agrees.symm⟩
  | some taken =>
    obtain ⟨trees, next⟩ := taken
    rw [ran] at agrees
    obtain ⟨⟨value, rest⟩, found, same⟩ := Option.map_eq_some_iff.1 agrees.symm
    obtain rfl : rest = next.stream := same
    obtain ⟨head, token⟩ := leaf.token _ _ _ found
    have ordered := cursor.ordered_stream
    rw [token] at ordered
    have start := settled.start_stream
    rw [token] at start
    exact .inr ⟨trees, next, value, rfl, found, start ▸ ordered.1⟩

theorem Leaf.tries (leaf : Leaf first read label) :
    Tries first label (expect read label fun _ before => before) where
  attempts cursor settled before := by
    rw [leaf.attempts, expect, settled.start_stream]
    rcases leaf.cases settled with ⟨failed, absent⟩ | ⟨trees, next, value, ran, found, -⟩
    · rw [failed, absent]
    · rw [ran, found]
  failing cursor settled failed before := by
    rcases leaf.cases settled with ⟨-, absent⟩ | ⟨trees, next, value, ran, -, -⟩
    · rw [expect, absent, settled.start_stream]
      exact .inl rfl
    · rw [failed] at ran
      cases ran

theorem Leaf.andThen (leaf : Leaf first read label) (follow : Tries second lead attempt) :
    Tries (first.andThen second) label (expect read label attempt) where
  attempts cursor settled before := by
    rw [Expression.andThen, Expression.attempts, leaf.attempts, expect, settled.start_stream]
    rcases leaf.cases settled with ⟨failed, absent⟩ | ⟨trees, next, value, ran, found, -⟩
    · rw [failed, absent]
    · obtain ⟨skipped, skip, same, later⟩ := Expression.run_skip next
      rw [ran, found]
      dsimp only
      rw [Expression.attempts, skip]
      dsimp only
      rw [Expression.attempts_skip, follow.attempts skipped later, same]
  failing cursor settled failed before := by
    rw [expect]
    rcases leaf.cases settled with ⟨-, absent⟩ | ⟨trees, next, value, ran, found, further⟩
    · rw [absent, settled.start_stream]
      exact .inl rfl
    · obtain ⟨skipped, skip, same, later⟩ := Expression.run_skip next
      rw [found]
      dsimp only
      right
      rw [Expression.andThen, Expression.run_seq ran, Expression.run_seq skip] at failed
      have stuck : second.run skipped = none := by simpa using failed
      have start := later.start_stream
      rw [same] at start
      rcases follow.failing skipped later stuck before with missed | deeper
      · rw [same] at missed
        rw [missed]
        have reached := before.le_offset_miss skipped.offset lead
        omega
      · rw [same] at deeper
        omega

theorem Tries.named (inner : Tries first lead attempt) (mark : label.mark = .plain) :
    Tries (.named label first) lead attempt where
  attempts cursor settled before := by
    have inside : Mode.plain.inside label = .plain := by
      rw [Mode.inside, if_neg (by rw [mark]; decide), Mode.plain_around]
    rw [Expression.attempts, inside, Mode.plain_around, inner.attempts cursor settled]
    cases ran : first.run cursor with
    | some => rfl
    | none =>
      rw [Option.isSome_none, if_pos (show false = Mode.plain.negated from rfl)]
      rcases inner.failing cursor settled ran before with missed | deeper
      · rw [missed, Attempts.track_miss]
      · exact Attempts.track_of_lt deeper
  failing cursor settled failed before := by
    refine inner.failing cursor settled ?_ before
    rw [Expression.run] at failed
    exact Option.map_eq_none_iff.1 failed

theorem Tries.optional (inner : Tries first lead attempt) :
    Tries (.optional first) lead attempt where
  attempts cursor settled before := inner.attempts cursor settled before
  failing cursor settled failed before := by
    rw [Expression.run] at failed
    simp at failed

end Trying

end Grammar

end FsmWorkbench
