import FsmWorkbench.Proofs.Notation.Blaming
import FsmWorkbench.Proofs.Text.Places

set_option autoImplicit false

namespace FsmWorkbench

open TokenStream

namespace Grammar

theorem tries_machineDecl :
    Tries .machineDecl (.keyword .machine) machineTries :=
  ((leaf_keyword .machine).andThen leaf_name.tries).named rfl

theorem tries_stateDecl :
    Tries .stateDecl (.keyword .state) (expect (keyword? .state) (.keyword .state) stateTries) :=
  have flag : Tries (.optional .initialFlag) (.keyword .initial) flagTries :=
    ((leaf_keyword .initial).tries.named rfl).optional
  ((leaf_keyword .state).andThen (leaf_name.andThen flag)).named rfl

theorem tries_transitionDecl :
    Tries .transitionDecl (.keyword .transition)
      (expect (keyword? .transition) (.keyword .transition) transitionTries) :=
  have guard : Tries (.optional .guard) (.keyword .guard) guardTries :=
    (((leaf_keyword .guard).andThen leaf_quoted.tries).named rfl).optional
  have target := (leaf_keyword .target).andThen (leaf_name.andThen guard)
  have source := (leaf_keyword .source).andThen (leaf_name.andThen target)
  ((leaf_keyword .transition).andThen (leaf_name.andThen source)).named rfl

section Declarations

variable {cursor : Cursor}

theorem attempts_declaration (settled : cursor.Settled) (before : Attempts) :
    Expression.declaration.attempts .plain cursor before =
      declarationTries cursor.stream before := by
  have agrees := (reads_stateDecl cursor settled).map_stream
  dsimp only at agrees
  rw [Expression.declaration, Expression.attempts, tries_stateDecl.attempts cursor settled,
    declarationTries]
  cases ran : Expression.stateDecl.run cursor with
  | none =>
    rw [ran] at agrees
    rw [Option.map_eq_none_iff.1 agrees.symm]
    exact tries_transitionDecl.attempts cursor settled _
  | some taken =>
    rw [ran] at agrees
    obtain ⟨read, found, -⟩ := Option.map_eq_some_iff.1 agrees.symm
    rw [found]

theorem attempts_skip_declaration (cursor : Cursor) (before : Attempts) :
    (Expression.seq .skip .declaration).attempts .plain cursor before =
      declarationTries cursor.stream before := by
  obtain ⟨skipped, skip, same, settled⟩ := Expression.run_skip cursor
  rw [Expression.attempts, skip]
  dsimp only
  rw [Expression.attempts_skip, attempts_declaration settled, same]

theorem run_skip_declaration (cursor : Cursor) :
    ((Expression.seq .skip .declaration).run cursor).map (fun taken => taken.2.stream) =
      cursor.stream.declaration?.map Prod.snd := by
  obtain ⟨skipped, skip, same, settled⟩ := Expression.run_skip cursor
  rw [Expression.run_seq skip, ← same]
  exact (congrArg _ (Option.map_id' ..)).trans (reads_declaration skipped settled).map_stream

theorem attempts_end (before : Attempts) (left : cursor.stream.exhausted = false) :
    (Expression.seq .skip (.named .endOfInput .stop)).attempts .plain cursor before =
      before.miss cursor.stream.start .endOfInput := by
  obtain ⟨next, skip, same, settled⟩ := Expression.run_skip cursor
  have stuck : (Expression.named .endOfInput .stop).run next = none := by
    have more : next.rest ≠ [] := by
      intro ended
      rw [← same, settled.exhausted_stream.2 ended] at left
      cases left
    simp [Expression.run, more]
  rw [Expression.attempts, skip]
  dsimp only
  rw [Expression.attempts_skip,
    Expression.attempts_named_of_still (Expression.attempts_of_ruleFree rfl ..), stuck, ← same,
    settled.start_stream]

end Declarations

namespace Ready

variable {stage : Stage} {stream : TokenStream} {cursor : Cursor} {before : Attempts}
  {error : Nat × List Expectation}

theorem exhausted_eq_false (ready : Ready stage stream before)
    (failed : readFrom stage stream = .error error) : stream.exhausted = false := by
  rcases stream with offset | offset | ⟨head, rest⟩
  · cases ready <;> cases failed
  · rfl
  · rfl

-- Induction on what is left: each round comes to a place that is ready again.
theorem iterates (ready : Ready stage cursor.stream before)
    (failed : readFrom stage cursor.stream = .error error) :
    ∃ (trees : List Tree) (next : Cursor) (last : Stage) (offset : Nat),
      iterate (Expression.seq .skip .declaration).run cursor = (trees, next) ∧
      next.stream.exhausted = false ∧ error = last.fault offset ∧
      (iterateAttempts (Expression.seq .skip .declaration).run
        ((Expression.seq .skip .declaration).attempts .plain) cursor before).miss
          next.stream.start .endOfInput = ⟨offset, last.attempted, []⟩ := by
  induction n : cursor.rest.length using Nat.strongRecOn generalizing cursor stage before with
  | ind n ih =>
    subst n
    have goes := ready.declaration cursor.ordered_stream
    have agrees := run_skip_declaration cursor
    rw [iterate, iterateAttempts, attempts_skip_declaration]
    cases ran : (Expression.seq .skip .declaration).run cursor with
    | none =>
      rw [ran] at agrees
      have none : cursor.stream.declaration? = none := Option.map_eq_none_iff.1 agrees.symm
      rw [none] at goes
      obtain ⟨last, offset, same, told⟩ := goes error failed
      exact ⟨[], cursor, last, offset, rfl, ready.exhausted_eq_false failed, same, told⟩
    | some taken =>
      obtain ⟨trees, next⟩ := taken
      rw [ran] at agrees
      obtain ⟨⟨decl, later⟩, found, same⟩ := Option.map_eq_some_iff.1 agrees.symm
      obtain rfl : later = next.stream := same
      have shorter := length_rest_lt_of_declaration? ran found
      rw [found] at goes
      obtain ⟨stage, ready, passes⟩ := goes
      obtain ⟨more, final, last, offset, iterated, unended, same, told⟩ :=
        ih _ shorter ready (passes error failed) rfl
      refine ⟨trees ++ more, final, last, offset, ?_, unended, same, ?_⟩
      · simp only [if_pos shorter, iterated]
      · simpa only [if_pos shorter] using told

theorem attempts_repeated (ready : Ready stage cursor.stream before) (settled : cursor.Settled)
    (failed : readFrom stage cursor.stream = .error error) :
    ∃ (trees : List Tree) (next : Cursor) (last : Stage) (offset : Nat),
      (Expression.repeated .declaration).run cursor = some (trees, next) ∧
      next.stream.exhausted = false ∧ error = last.fault offset ∧
      ((Expression.repeated .declaration).attempts .plain cursor before).miss
          next.stream.start .endOfInput = ⟨offset, last.attempted, []⟩ := by
  have goes := ready.declaration cursor.ordered_stream
  have agrees := (reads_declaration cursor settled).map_stream
  rw [Expression.repeated, Expression.run, Expression.attempts, Expression.attempts,
    attempts_declaration settled]
  cases ran : Expression.declaration.run cursor with
  | none =>
    rw [ran] at agrees
    have none : cursor.stream.declaration? = none := Option.map_eq_none_iff.1 agrees.symm
    rw [none] at goes
    obtain ⟨last, offset, same, told⟩ := goes error failed
    rw [Expression.run_seq_eq_none ran]
    exact ⟨[], cursor, last, offset, rfl, ready.exhausted_eq_false failed, same, told⟩
  | some taken =>
    obtain ⟨trees, next⟩ := taken
    rw [ran] at agrees
    obtain ⟨⟨decl, later⟩, found, same⟩ := Option.map_eq_some_iff.1 agrees.symm
    obtain rfl : later = next.stream := same
    rw [found] at goes
    obtain ⟨stage, ready, passes⟩ := goes
    obtain ⟨more, final, last, offset, iterated, unended, same, told⟩ :=
      ready.iterates (passes error failed)
    rw [Expression.run_seq ran, Expression.run, iterated]
    exact ⟨trees ++ more, final, last, offset, rfl, unended, same, told⟩

theorem attempts_afterMachine (ready : Ready stage cursor.stream before)
    (failed : readFrom stage cursor.stream = .error error) :
    ∃ (last : Stage) (offset : Nat), error = last.fault offset ∧
      Expression.afterMachine.attempts .plain cursor before = ⟨offset, last.attempted, []⟩ := by
  obtain ⟨skipped, skip, same, settled⟩ := Expression.run_skip cursor
  rw [← same] at ready failed
  obtain ⟨trees, next, last, offset, repeats, unended, fault, told⟩ :=
    ready.attempts_repeated settled failed
  refine ⟨last, offset, fault, ?_⟩
  rw [Expression.afterMachine, Expression.attempts, skip]
  dsimp only
  rw [Expression.attempts_skip, Expression.andThen, Expression.attempts, repeats]
  dsimp only
  rw [attempts_end _ unended, told]

end Ready

theorem attempts_opening {opening : Cursor} (settled : opening.Settled)
    {error : Nat × List Expectation} (failed : readFrom .opening opening.stream = .error error) :
    ∃ (last : Stage) (offset : Nat), error = last.fault offset ∧
      (Expression.seq (.optional .machineDecl) .afterMachine).attempts .plain opening .start =
        ⟨offset, last.attempted, []⟩ := by
  have agrees := (reads_machineDecl opening settled).map_stream
  have ready := ready_machine opening.ordered_stream
  dsimp only at agrees
  rw [Expression.attempts, Expression.run, tries_machineDecl.optional.attempts opening settled]
  cases ran : Expression.machineDecl.run opening with
  | none =>
    rw [ran] at agrees
    rw [Option.map_eq_none_iff.1 agrees.symm] at ready
    exact ready.attempts_afterMachine failed
  | some taken =>
    obtain ⟨trees, next⟩ := taken
    rw [ran] at agrees
    obtain ⟨⟨machine, later⟩, found, same⟩ := Option.map_eq_some_iff.1 agrees.symm
    obtain rfl : later = next.stream := same
    rw [found] at ready
    obtain ⟨ready, passes⟩ := ready
    exact ready.attempts_afterMachine (passes error failed)

-- Nothing goes wrong at the start of a text but what opens it.
theorem fault_eq_document {text : String} {error : Nat × List Expectation}
    (failed : readFrom .opening (ofText text) = .error error) (first : error.1 = 0) :
    error = (0, [.document]) := by
  obtain ⟨front, rest, tokens, last, -, begun, reached, rfl⟩ :=
    exists_begins_of_readFrom_eq_error failed
  rw [Stage.fst_fault, Nat.zero_add] at first
  obtain rfl := Text.size_eq_zero_iff.1 first
  obtain rfl := begun.tokens_eq_nil
  obtain rfl := Option.some.inj reached
  rfl

theorem Stage.eq_opening_of_fault {stage : Stage} {offset : Nat}
    (document : stage.fault offset = (0, [.document])) : stage = .opening := by
  rw [Stage.fault] at document
  split at document
  · next first => exact first.1
  · cases stage <;> cases document

theorem Expression.program_eq :
    program = .named .program (.seq skip (.seq (.optional machineDecl) afterMachine)) := rfl

theorem fault?_of_readFrom_eq_error {text : String} {error : Nat × List Expectation}
    (failed : readFrom .opening (ofText text) = .error error) :
    ∃ (last : Stage) (offset : Nat), error = last.fault offset ∧
      fault? text = some (Attempts.start.track ⟨offset, last.attempted, []⟩ .plain .program 0) := by
  obtain ⟨opening, skip, same, settled⟩ := Expression.run_skip ⟨0, text.toList⟩
  have stream : ofText text = opening.stream := same.symm
  obtain ⟨last, offset, located, told⟩ := attempts_opening settled (stream ▸ failed)
  refine ⟨last, offset, located, ?_⟩
  have refused : Expression.program.run ⟨0, text.toList⟩ = none := by
    have unread := parse?_eq_toOption_parse text
    rw [Model.parse, failed] at unread
    exact Option.map_eq_none_iff.1 unread
  have stuck : (Expression.seq .skip (.seq (.optional .machineDecl) .afterMachine)).run
      ⟨0, text.toList⟩ = none := Option.map_eq_none_iff.1 refused
  rw [fault?, refused, Expression.program_eq, Expression.attempts, stuck, Mode.plain_around,
    show Mode.plain.inside .program = .plain from rfl, Expression.attempts, skip]
  dsimp only
  rw [Expression.attempts_skip, told]
  rfl

theorem fault?_of_parse_eq_error {text : String} {error : ParseError}
    (failed : Model.parse text = .error error) :
    ∃ attempts, fault? text = some attempts ∧ attempts.offset = error.offset ∧
      attempts.message = error.message := by
  rw [Model.parse] at failed
  split at failed
  · cases failed
  next offset expected fault =>
  obtain rfl := Except.error.inj failed
  obtain ⟨last, place, located, told⟩ := fault?_of_readFrom_eq_error fault
  obtain rfl : offset = place := (congrArg Prod.fst located).trans (last.fst_fault _)
  refine ⟨_, told, ?_⟩
  obtain rfl | further := Nat.eq_zero_or_pos offset
  · have document := fault_eq_document fault rfl
    obtain rfl := Stage.eq_opening_of_fault (located.symm.trans document)
    obtain rfl : expected = [.document] := congrArg Prod.snd document
    have message :
        (Attempts.start.track ⟨0, Stage.opening.attempted, []⟩ .plain .program 0).message =
          "expected " ++ alternatives ([Expectation.document].map Expectation.text) := by
      decide +kernel
    exact ⟨rfl, message⟩
  · rw [Attempts.track_of_lt further]
    rw [Stage.fault, if_neg fun first => Nat.ne_of_gt further first.2] at located
    obtain rfl : expected = last.expected := congrArg Prod.snd located
    exact ⟨rfl, last.message_attempted offset⟩

end Grammar

end FsmWorkbench
