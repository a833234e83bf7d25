import FsmWorkbench.Proofs.Notation.Descent
import FsmWorkbench.Proofs.Notation.Words
import Mathlib.Data.List.Forall2

set_option autoImplicit false

namespace FsmWorkbench.Grammar

open TokenStream

section Combinators

variable {α β : Type} {first second : Expression} {read : TokenStream → Option (α × TokenStream)}
  {readNext : TokenStream → Option (β × TokenStream)} {holds : List Tree → Cursor → α → Prop}
  {holdsNext : List Tree → Cursor → β → Prop}

theorem Reads.named (label : Rule) (reads : Reads first read holds) :
    Reads (.named label first)
      (fun stream => (read stream).map fun (value, rest) => ((stream.start, value), rest))
      fun trees next (start, value) => ∃ text children,
        trees = [.node label ⟨start, next.offset⟩ text children] ∧ holds children next value := by
  intro cursor settled
  have agrees := reads cursor settled
  dsimp only
  rw [settled.start_stream, Expression.run]
  generalize first.run cursor = outcome at agrees
  generalize read cursor.stream = found at agrees
  cases agrees with
  | fails => exact .fails
  | takes kept => exact .takes ⟨_, _, rfl, kept⟩

theorem Reads.andThen (left : Reads first read holds) (right : Reads second readNext holdsNext) :
    Reads (first.andThen second)
      (fun stream => (read stream).bind fun (value, rest) =>
        (readNext rest).map fun (more, last) => ((value, more), last))
      fun trees next (value, more) => ∃ before middle after,
        trees = before ++ after ∧ holds before middle value ∧ holdsNext after next more := by
  intro cursor settled
  have agrees := left cursor settled
  dsimp only
  rw [Expression.andThen, Expression.run]
  generalize first.run cursor = outcome at agrees
  generalize read cursor.stream = found at agrees
  cases agrees with
  | fails => exact .fails
  | @takes before middle value kept =>
    obtain ⟨skipped, skip, same, later⟩ := Expression.run_skip middle
    have follows := right skipped later
    dsimp only [Option.bind_some]
    rw [Expression.run_seq skip, ← same]
    generalize second.run skipped = outcome at follows
    generalize readNext skipped.stream = found at follows
    cases follows with
    | fails => exact .fails
    | @takes after next more keptNext => exact .takes ⟨before, middle, after, rfl, kept, keptNext⟩

theorem Reads.optional (reads : Reads first read holds) :
    Reads (.optional first)
      (fun stream => match read stream with
        | some (value, rest) => some (some value, rest)
        | none => some (none, stream))
      fun trees next value? => match value? with
        | some value => holds trees next value
        | none => trees = [] ∧ next.Settled := by
  intro cursor settled
  have agrees := reads cursor settled
  dsimp only
  rw [Expression.run]
  generalize first.run cursor = outcome at agrees
  generalize read cursor.stream = found at agrees
  cases agrees with
  | fails => exact .takes ⟨rfl, settled⟩
  | takes kept => exact .takes kept

theorem Reads.choice {readOther : TokenStream → Option (α × TokenStream)}
    (left : Reads first read holds) (right : Reads second readOther holds) :
    Reads (.choice first second) (fun stream => (read stream).or (readOther stream)) holds := by
  intro cursor settled
  have agrees := left cursor settled
  dsimp only
  rw [Expression.run]
  generalize first.run cursor = outcome at agrees
  generalize read cursor.stream = found at agrees
  cases agrees with
  | fails => exact right cursor settled
  | takes kept => exact .takes kept

theorem Reads.map (reads : Reads first read holds) (build : α → TokenStream → β)
    (same : ∀ stream, readNext stream =
      (read stream).map fun (value, rest) => (build value rest, rest))
    (kept : ∀ trees next value, holds trees next value →
      holdsNext trees next (build value next.stream)) : Reads first readNext holdsNext := by
  intro cursor settled
  have agrees := reads cursor settled
  rw [same]
  generalize first.run cursor = outcome at agrees
  generalize read cursor.stream = found at agrees
  cases agrees with
  | fails => exact .fails
  | takes held => exact .takes (kept _ _ _ held)

end Combinators

def Tree.Declares (tree : Tree) : Declaration → Prop
  | .machine decl => tree.rule = .machineDecl ∧ tree.machine = decl
  | .state decl => tree.rule = .stateDecl ∧ tree.state = decl
  | .transition decl => tree.rule = .transitionDecl ∧ tree.transition = decl

theorem reads_machineDecl :
    Reads .machineDecl
      (fun stream => (stream.keyword? .machine).bind fun (span, rest) => rest.machine? span.start)
      fun trees _ decl => ∃ tree, trees = [tree] ∧ tree.Declares (.machine decl) := by
  refine (((reads_keyword .machine).andThen reads_name).named .machineDecl).map
    (fun (start, _, name) _ => ⟨name, ⟨start, name.span.stop⟩⟩) ?_ ?_
  · intro stream
    rcases opened : stream.keyword? .machine with _ | ⟨span, rest⟩
    · rfl
    · obtain rfl := keyword?_eq_some_iff.1 opened
      simp only [machine?, Option.bind_some]
      cases rest.name? <;> rfl
  · rintro trees next ⟨start, span, name⟩
      ⟨text, _, rfl, _, middle, _, rfl, ⟨_, rfl, -⟩, tree, rfl, named, rfl, stop⟩
    refine ⟨_, rfl, rfl, ?_⟩
    simp [Tree.machine, Tree.nameAt, Tree.names, stop, named]

theorem reads_stateDecl :
    Reads .stateDecl
      (fun stream => (stream.keyword? .state).bind fun (span, rest) => rest.state? span.start)
      fun trees _ decl => ∃ tree, trees = [tree] ∧ tree.Declares (.state decl) := by
  have reads_flag := ((reads_keyword .initial).named .initialFlag).optional
  refine (((reads_keyword .state).andThen (reads_name.andThen reads_flag)).named .stateDecl).map
    (fun (start, _, name, flag?) rest => ⟨name, flag?.isSome, ⟨start,
      match flag? with
      | some (_, flag) => flag.stop
      | none => rest.start⟩⟩) ?_ ?_
  · intro stream
    rcases opened : stream.keyword? .state with _ | ⟨span, rest⟩
    · rfl
    · obtain rfl := keyword?_eq_some_iff.1 opened
      simp only [state?, Option.bind_some]
      rcases rest.name? with _ | ⟨name, flagged⟩
      · rfl
      · simp only [Option.bind_some]
        cases flagged.keyword? .initial <;> rfl
  · rintro trees next ⟨start, span, name, flag?⟩
      ⟨text, _, rfl, _, _, _, rfl, ⟨_, rfl, -⟩,
        _, middle, _, rfl, ⟨tree, rfl, named, rfl, -⟩, flagged⟩
    refine ⟨_, rfl, rfl, ?_⟩
    cases flag? with
    | none =>
      obtain ⟨rfl, settled⟩ := flagged
      simp [Tree.state, Tree.names, named, settled.start_stream]
    | some flag =>
      obtain ⟨_, flag⟩ := flag
      obtain ⟨_, _, rfl, _, rfl, stop⟩ := flagged
      simp [Tree.state, Tree.names, named, stop]

theorem reads_guard :
    Reads .guard guard? fun trees next (content, span) => ∃ tree, trees = [tree] ∧
      tree.rule = .guard ∧ tree.contents = some content ∧ span.stop = next.offset := by
  refine (((reads_keyword .guard).andThen reads_quoted).named .guard).map
    (fun (_, _, quoted) _ => quoted) ?_ ?_
  · intro stream
    rcases opened : stream.keyword? .guard with _ | ⟨span, rest⟩
    · simp [guard?, opened]
    · simp only [guard?, opened, Option.bind_some]
      cases rest.quoted? <;> rfl
  · rintro trees next ⟨start, span, content, range⟩
      ⟨text, _, rfl, _, _, _, rfl, ⟨_, rfl, -⟩, _, inner, rfl, rfl, stop⟩
    exact ⟨_, rfl, rfl, rfl, stop⟩

theorem reads_transitionDecl :
    Reads .transitionDecl
      (fun stream =>
        (stream.keyword? .transition).bind fun (span, rest) => rest.transition? span.start)
      fun trees _ decl => ∃ tree, trees = [tree] ∧ tree.Declares (.transition decl) := by
  have reads_target := reads_name.andThen reads_guard.optional
  have reads_source := reads_name.andThen ((reads_keyword .target).andThen reads_target)
  have reads_all := (reads_keyword .transition).andThen
    (reads_name.andThen ((reads_keyword .source).andThen reads_source))
  refine (reads_all.named .transitionDecl).map
    (fun (start, _, name, _, source, _, target, guard?) rest =>
      ⟨name, source, target, guard?.map Prod.fst, ⟨start,
        match guard? with
        | some (_, guard) => guard.stop
        | none => rest.start⟩⟩) ?_ ?_
  · intro stream
    rcases opened : stream.keyword? .transition with _ | ⟨span, rest⟩
    · rfl
    · obtain rfl := keyword?_eq_some_iff.1 opened
      simp only [transition?, Option.bind_some]
      rcases rest.name? with _ | ⟨name, leaving⟩
      · rfl
      simp only [Option.bind_some]
      rcases leaving.keyword? .source with _ | ⟨_, sourced⟩
      · rfl
      simp only [Option.bind_some]
      rcases sourced.name? with _ | ⟨source, entering⟩
      · rfl
      simp only [Option.bind_some]
      rcases entering.keyword? .target with _ | ⟨_, targeted⟩
      · rfl
      simp only [Option.bind_some]
      rcases targeted.name? with _ | ⟨target, guarded⟩
      · rfl
      simp only [Option.bind_some]
      cases guarded.guard? <;> rfl
  · rintro trees next ⟨start, span, name, _, source, _, target, guard?⟩
      ⟨text, _, rfl, _, _, _, rfl, ⟨_, rfl, -⟩,
        _, _, _, rfl, ⟨nameTree, rfl, isName, rfl, -⟩,
        _, _, _, rfl, ⟨_, rfl, -⟩,
        _, _, _, rfl, ⟨sourceTree, rfl, isSource, rfl, -⟩,
        _, _, _, rfl, ⟨_, rfl, -⟩,
        _, _, _, rfl, ⟨targetTree, rfl, isTarget, rfl, -⟩, guarded⟩
    refine ⟨_, rfl, rfl, ?_⟩
    cases guard? with
    | none =>
      obtain ⟨rfl, settled⟩ := guarded
      simp [Tree.transition, Tree.nameAt, Tree.names, Tree.guard?, isName, isSource, isTarget,
        settled.start_stream]
    | some guard =>
      obtain ⟨content, range⟩ := guard
      obtain ⟨tree, rfl, isGuard, inside, stop⟩ := guarded
      simp [Tree.transition, Tree.nameAt, Tree.names, Tree.guard?, isName, isSource, isTarget,
        isGuard, inside, stop]

theorem reads_declaration :
    Reads .declaration declaration? fun trees _ decl =>
      ∃ tree, trees = [tree] ∧ tree.Declares decl := by
  let holds := fun (trees : List Tree) (_ : Cursor) decl =>
    ∃ tree, trees = [tree] ∧ tree.Declares decl
  have reads_state : Reads .stateDecl _ holds := reads_stateDecl.map
    (fun decl _ => Declaration.state decl) (fun _ => rfl) (fun _ _ _ kept => kept)
  have reads_transition : Reads .transitionDecl _ holds := reads_transitionDecl.map
    (fun decl _ => Declaration.transition decl) (fun _ => rfl) (fun _ _ _ kept => kept)
  have same : declaration? = fun stream : TokenStream =>
      (((stream.keyword? .state).bind fun found => found.2.state? found.1.start).map
        fun read => (Declaration.state read.1, read.2)).or
      (((stream.keyword? .transition).bind fun found => found.2.transition? found.1.start).map
        fun read => (Declaration.transition read.1, read.2)) := by
    funext stream
    rcases stream with offset | offset | ⟨⟨word | text | content, span⟩, rest⟩
    case token.keyword =>
      cases word <;> simp [declaration?, keyword?]
    all_goals rfl
  rw [same]
  exact reads_state.choice reads_transition

theorem length_rest_lt_of_declaration? {cursor next : Cursor} {trees : List Tree}
    {decl : Declaration}
    (ran : (Expression.seq .skip .declaration).run cursor = some (trees, next))
    (found : cursor.stream.declaration? = some (decl, next.stream)) :
    next.rest.length < cursor.rest.length := by
  obtain ⟨taken, reaches⟩ := Expression.exists_reaches ran
  by_contra stays
  obtain rfl := reaches.eq_of_length_le (Nat.not_lt.1 stays)
  obtain ⟨item, -, lexemes, -⟩ := lexemes_of_declaration? found
  have longer := congrArg List.length lexemes
  have := item.length_lexemes_pos
  rw [List.length_append] at longer
  omega

-- Repeating goes on as long as there are declarations, and only then the text may end.
theorem iterate_declarations (cursor : Cursor) :
    ∃ trees next decls, iterate (Expression.seq .skip .declaration).run cursor = (trees, next) ∧
      List.Forall₂ Tree.Declares trees decls ∧
      readAll .settled cursor.stream = if next.stream.exhausted then some decls else none := by
  induction n : cursor.rest.length using Nat.strongRecOn generalizing cursor with
  | ind n ih =>
    subst n
    obtain ⟨skipped, skip, same, settled⟩ := Expression.run_skip cursor
    have agrees := reads_declaration skipped settled
    have step : (Expression.seq .skip .declaration).run cursor =
        Expression.declaration.run skipped :=
      (Expression.run_seq skip).trans (Option.map_id' ..)
    rw [same] at agrees
    rw [iterate, readAll_settled]
    generalize ran : Expression.declaration.run skipped = outcome at agrees step
    generalize found : cursor.stream.declaration? = result at agrees
    cases agrees with
    | fails =>
      rw [step]
      exact ⟨[], cursor, [], rfl, .nil, rfl⟩
    | @takes _ next decl kept =>
      obtain ⟨tree, rfl, declares⟩ := kept
      have shorter := length_rest_lt_of_declaration? step found
      obtain ⟨trees, last, decls, more, declare, read⟩ := ih _ shorter next rfl
      refine ⟨tree :: trees, last, decl :: decls, ?_, .cons declares declare, ?_⟩
      · rw [step]
        simp [shorter, more]
      · simp only [read]
        split <;> rfl

theorem run_repeated {cursor : Cursor} (settled : cursor.Settled) :
    ∃ trees next decls,
      (Expression.repeated .declaration).run cursor = some (trees, next) ∧
      List.Forall₂ Tree.Declares trees decls ∧
      readAll .settled cursor.stream = if next.stream.exhausted then some decls else none := by
  have agrees := reads_declaration cursor settled
  rw [Expression.repeated, Expression.run, readAll_settled]
  generalize ran : Expression.declaration.run cursor = outcome at agrees
  generalize cursor.stream.declaration? = result at agrees
  cases agrees with
  | fails =>
    rw [Expression.run_seq_eq_none ran]
    exact ⟨[], cursor, [], rfl, .nil, rfl⟩
  | @takes _ next decl kept =>
    obtain ⟨tree, rfl, declares⟩ := kept
    obtain ⟨trees, last, decls, more, declare, read⟩ := iterate_declarations next
    refine ⟨tree :: trees, last, decl :: decls, ?_, .cons declares declare, ?_⟩
    · rw [Expression.run_seq ran, Expression.run, more]
      rfl
    · simp only [read]
      split <;> rfl

theorem run_end (cursor : Cursor) :
    ∃ tree next, tree.rule = .endOfInput ∧
      (Expression.seq .skip (.named .endOfInput .stop)).run cursor =
        if cursor.stream.exhausted then some ([tree], next) else none := by
  obtain ⟨next, skip, same, settled⟩ := Expression.run_skip cursor
  refine ⟨.node .endOfInput ⟨next.offset, next.offset⟩ [] [], next, rfl, ?_⟩
  rw [Expression.run_seq skip, ← same]
  by_cases ended : next.rest = []
  · rw [if_pos (settled.exhausted_stream.2 ended)]
    simp [Expression.run, ended]
  · rw [if_neg (ended ∘ settled.exhausted_stream.1)]
    simp [Expression.run, ended]

theorem foldl_addTo {trees : List Tree} {decls : List Declaration}
    (declare : List.Forall₂ Tree.Declares trees decls)
    (body : decls.findSome? Declaration.machine? = none) (model : Model) :
    trees.foldl Tree.addTo model =
      { model with
        states := model.states ++ decls.filterMap Declaration.state?
        transitions := model.transitions ++ decls.filterMap Declaration.transition? } := by
  induction declare generalizing model with
  | nil => simp
  | @cons tree decl trees decls declares _ ih =>
    rw [List.findSome?_cons] at body
    cases decl with
    | machine => simp [Declaration.machine?] at body
    | state decl =>
      obtain ⟨rule, rfl⟩ := declares
      rw [List.foldl_cons, ih body, List.filterMap_cons, List.filterMap_cons]
      simp [Tree.addTo, rule, Declaration.state?, Declaration.transition?]
    | transition decl =>
      obtain ⟨rule, rfl⟩ := declares
      rw [List.foldl_cons, ih body, List.filterMap_cons, List.filterMap_cons]
      simp [Tree.addTo, rule, Declaration.state?, Declaration.transition?]

-- Everything behind the machine declaration, with what is skipped before it.
def Expression.afterMachine : Expression :=
  .seq .skip (.andThen (.repeated .declaration) (.named .endOfInput .stop))

theorem run_afterMachine (cursor : Cursor) (machine : Option MachineDecl) :
    ((Expression.afterMachine.run cursor).map fun (trees, _) =>
        trees.foldl Tree.addTo ⟨machine, [], []⟩) =
      (readAll .settled cursor.stream).map fun decls =>
        Model.ofDeclarations ((machine.map Declaration.machine).toList ++ decls) := by
  obtain ⟨skipped, skip, same, settled⟩ := Expression.run_skip cursor
  obtain ⟨trees, next, decls, repeats, declare, read⟩ := run_repeated settled
  obtain ⟨tree, last, rule, ended⟩ := run_end next
  rw [Expression.afterMachine, Expression.run_seq skip, Expression.andThen,
    Expression.run_seq repeats, ended, ← same, read]
  by_cases exhausted : next.stream.exhausted = true
  · rw [if_pos exhausted] at read
    obtain ⟨items, mapped, -⟩ := lexemes_of_readAll_settled read
    have body := findSome?_machine?_eq_none mapped
    rw [if_pos exhausted, if_pos exhausted]
    cases machine with
    | none => simp [foldl_addTo declare body, Tree.addTo, rule, Model.ofDeclarations, body]
    | some machine =>
      have built := ofDeclarations_cons_machine machine decls
      simp only [Option.map_some, Option.toList_some, List.singleton_append, built]
      simp [foldl_addTo declare body, Tree.addTo, rule, Model.ofDeclarations]
  · rw [if_neg exhausted, if_neg exhausted]
    rfl

theorem parse?_eq_toOption_parse (text : String) : parse? text = (Model.parse text).toOption := by
  have parsed : (Model.parse text).toOption =
      (readAll .opening (ofText text)).map Model.ofDeclarations := by
    rw [Model.parse, readAll]
    cases readFrom .opening (ofText text) <;> rfl
  have grown : parse? text =
      ((Expression.seq .skip (.seq (.optional .machineDecl) .afterMachine)).run
        ⟨0, text.toList⟩).map fun (trees, _) => trees.foldl Tree.addTo ⟨none, [], []⟩ := by
    change ((Expression.named .program
      (.seq .skip (.seq (.optional .machineDecl) .afterMachine))).run ⟨0, text.toList⟩).map _ = _
    generalize Expression.seq .skip (.seq (.optional .machineDecl) .afterMachine) = inner
    simp only [Expression.run]
    cases inner.run ⟨0, text.toList⟩ <;> rfl
  obtain ⟨opening, skip, same, settled⟩ := Expression.run_skip ⟨0, text.toList⟩
  have agrees := reads_machineDecl.optional opening settled
  dsimp only at agrees
  have stream : ofText text = opening.stream := same.symm
  rw [parsed, grown, Expression.run_seq skip, readAll_opening, stream]
  generalize ran : (Expression.optional .machineDecl).run opening = outcome at agrees
  rcases header : (opening.stream.keyword? .machine).bind fun (span, rest) =>
      rest.machine? span.start with _ | ⟨machine, later⟩
  · rw [header] at agrees
    generalize opening.stream = stream at agrees
    cases agrees with
    | @takes _ next _ kept =>
      obtain ⟨rfl, -⟩ := kept
      have body := run_afterMachine next none
      rw [Expression.run_seq ran]
      simpa [Function.comp_def] using body
  · rw [header] at agrees
    cases agrees with
    | @takes _ next _ kept =>
      obtain ⟨tree, rfl, rule, rfl⟩ := kept
      have body := run_afterMachine next (some tree.machine)
      rw [Expression.run_seq ran]
      simpa [Function.comp_def, Tree.addTo, rule] using body

end FsmWorkbench.Grammar
