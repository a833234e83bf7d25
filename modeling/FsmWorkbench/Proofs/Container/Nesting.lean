import FsmWorkbench.Proofs.Container.Graph
import FsmWorkbench.Proofs.Container.Resolution
import Mathlib.Data.List.Perm.Subperm

set_option autoImplicit false

namespace FsmWorkbench

open Injector

variable {σ ω : Type}

structure Assembly (σ ω : Type) where
  key : ServiceKey
  binding : Binding σ ω
  scope : Scope
  make : Factory σ ω
  rest : List ServiceKey
  supplied : Table ServiceKey (Instance σ)

namespace Assembly

def finish (assembly : Assembly σ ω) (state : ContainerState σ ω) : Result σ ω :=
  match kept? assembly.scope assembly.key state with
  | some found => (.ok found, state)
  | none =>
    match construct assembly.make ⟨assembly.key, assembly.supplied⟩ state with
    | (.error error, last) => (.error error, last)
    | (.ok made, last) =>
      (.ok made,
        if assembly.scope = .singleton then keep assembly.key assembly.binding made last else last)

-- What comes of a service if its dependencies are resolved one after the other.
def result (injector : Injector σ ω) (path : List ServiceKey) (assembly : Assembly σ ω)
    (state : ContainerState σ ω) : Result σ ω :=
  match supplyAll (fun next => injector.resolveOn path next) assembly.rest assembly.supplied
      state with
  | (.error error, later) => (.error error, later)
  | (.ok supplied, later) => finish { assembly with rest := [], supplied } later

end Assembly

inductive Focus (σ ω : Type) where
  | ask (key : ServiceKey)
  | assemble (assembly : Assembly σ ω)
  | answer (outcome : Except ResolveError (Instance σ))

structure Walk (σ ω : Type) where
  focus : Focus σ ω
  path : List ServiceKey
  -- The services that wait for a dependency, and for which one. The last of them comes first.
  waiting : List (Assembly σ ω × ServiceKey)
  state : ContainerState σ ω

namespace Walk

def answered (walk : Walk σ ω) (outcome : Except ResolveError (Instance σ)) : Walk σ ω :=
  { walk with focus := .answer outcome }

def enter (injector : Injector σ ω) (walk : Walk σ ω) (key : ServiceKey) : Walk σ ω :=
  match injector.binding? key with
  | none => walk.answered (.error (.missingBinding key))
  | some binding =>
    match binding.provider with
    | .prebuilt service => walk.answered (.ok ⟨.prebuilt key, service, []⟩)
    | .factory dependencies scope make =>
      match kept? scope key walk.state with
      | some found => walk.answered (.ok found)
      | none =>
        if key ∈ walk.path then walk.answered (.error (.cyclicDependency (walk.path ++ [key])))
        else
          { walk with
              focus := .assemble ⟨key, binding, scope, make, dependencies, .empty⟩
              path := walk.path ++ [key] }

-- With an error, too, the service that waits is popped from the path before the error goes on.
def step? (injector : Injector σ ω) : Walk σ ω → Option (Walk σ ω)
  | ⟨.ask key, path, waiting, state⟩ => some (enter injector ⟨.ask key, path, waiting, state⟩ key)
  | ⟨.assemble assembly, path, waiting, state⟩ =>
    match assembly.rest with
    | [] =>
      some ⟨.answer (assembly.finish state).1, path.dropLast, waiting, (assembly.finish state).2⟩
    | next :: rest => some ⟨.ask next, path, ({ assembly with rest }, next) :: waiting, state⟩
  | ⟨.answer _, _, [], _⟩ => none
  | ⟨.answer (.error error), path, _ :: waiting, state⟩ =>
    some ⟨.answer (.error error), path.dropLast, waiting, state⟩
  | ⟨.answer (.ok found), path, (assembly, awaited) :: waiting, state⟩ =>
    some ⟨.assemble { assembly with supplied := assembly.supplied.put awaited found }, path,
      waiting, state⟩

def run (injector : Injector σ ω) : (steps : Nat) → Walk σ ω → Walk σ ω
  | 0, walk => walk
  | steps + 1, walk =>
    match walk.step? injector with
    | none => walk
    | some next => run injector steps next

def depth (walk : Walk σ ω) : Nat :=
  walk.waiting.length + 1

def asked (walk : Walk σ ω) : List ServiceKey :=
  match walk.focus with
  | .ask key => [key]
  | _ => []

def assemblies (walk : Walk σ ω) : List (Assembly σ ω) :=
  match walk.focus with
  | .assemble assembly => assembly :: walk.waiting.map Prod.fst
  | _ => walk.waiting.map Prod.fst

section Runs

variable {injector : Injector σ ω} {walk next later last : Walk σ ω}

theorem run_of_stopped (stopped : walk.step? injector = none) (steps : Nat) :
    walk.run injector steps = walk := by
  cases steps with
  | zero => rfl
  | succ steps => rw [run, stopped]

theorem run_of_step (step : walk.step? injector = some next) (steps : Nat) :
    walk.run injector (steps + 1) = next.run injector steps := by
  rw [run, step]

theorem run_add (walk : Walk σ ω) (first second : Nat) :
    walk.run injector (first + second) = (walk.run injector first).run injector second := by
  induction first generalizing walk with
  | zero => rw [Nat.zero_add, run]
  | succ first ih =>
    rw [Nat.add_right_comm]
    cases step : walk.step? injector with
    | none => rw [run_of_stopped step, run_of_stopped step, run_of_stopped step]
    | some next => rw [run_of_step step, run_of_step step, ih]

def Leads (injector : Injector σ ω) (walk later : Walk σ ω) : Prop :=
  ∃ steps, walk.run injector steps = later

theorem Leads.refl (walk : Walk σ ω) : walk.Leads injector walk :=
  ⟨0, rfl⟩

theorem Leads.trans (first : walk.Leads injector later) (second : later.Leads injector last) :
    walk.Leads injector last := by
  obtain ⟨steps, rfl⟩ := first
  obtain ⟨more, rfl⟩ := second
  exact ⟨steps + more, run_add ..⟩

theorem Leads.step (step : walk.step? injector = some next) (leads : next.Leads injector last) :
    walk.Leads injector last := by
  obtain ⟨steps, rfl⟩ := leads
  exact ⟨steps + 1, run_of_step step steps⟩

end Runs

theorem enter_cases (injector : Injector σ ω) (walk : Walk σ ω) (key : ServiceKey) :
    (∃ outcome, injector.Step walk.path key walk.state (outcome, walk.state) ∧
        walk.enter injector key = walk.answered outcome) ∨
      ∃ binding dependencies scope make,
        Needs injector walk.path key walk.state binding dependencies scope make ∧
          walk.enter injector key =
            { walk with
                focus := .assemble ⟨key, binding, scope, make, dependencies, .empty⟩
                path := walk.path ++ [key] } := by
  rw [enter]
  split
  · next unbound => exact .inl ⟨_, .missing unbound, rfl⟩
  next binding bound =>
  split
  · next service provider => exact .inl ⟨_, .prebuilt bound provider, rfl⟩
  next dependencies scope make provider =>
  split
  · next found known =>
    obtain ⟨rfl, cached⟩ := Option.ite_none_right_eq_some.1 known
    exact .inl ⟨_, .kept bound provider cached, rfl⟩
  next unkept =>
  split
  · next entered => exact .inl ⟨_, .cyclic bound provider unkept entered, rfl⟩
  · next fresh => exact .inr ⟨_, _, _, _, ⟨bound, provider, unkept, fresh⟩, rfl⟩

section Resolving

variable {injector : Injector σ ω} {path : List ServiceKey}

def Answers (injector : Injector σ ω) (path : List ServiceKey) : Prop :=
  ∀ key waiting state, Leads injector ⟨.ask key, path, waiting, state⟩
    ⟨.answer (injector.resolveOn path key state).1, path, waiting,
      (injector.resolveOn path key state).2⟩

theorem leads_result (answers : Answers injector path) (assembly : Assembly σ ω)
    (waiting : List (Assembly σ ω × ServiceKey)) (state : ContainerState σ ω) :
    Leads injector ⟨.assemble assembly, path, waiting, state⟩
      ⟨.answer (assembly.result injector path state).1, path.dropLast, waiting,
        (assembly.result injector path state).2⟩ := by
  obtain ⟨key, binding, scope, make, rest, supplied⟩ := assembly
  induction rest generalizing supplied state with
  | nil => exact .step rfl (.refl _)
  | cons next rest ih =>
    have answered :=
      answers next ((⟨key, binding, scope, make, rest, supplied⟩, next) :: waiting) state
    refine .step rfl (answered.trans ?_)
    rw [Assembly.result, supplyAll]
    rcases injector.resolveOn path next state with ⟨_ | found, later⟩
    · exact .step rfl (.refl _)
    · exact .step rfl (ih later (supplied.put next found))

theorem resolveOn_eq_result {key : ServiceKey} {state : ContainerState σ ω} {binding : Binding σ ω}
    {dependencies : List ServiceKey} {scope : Scope} {make : Factory σ ω}
    (needs : injector.Needs path key state binding dependencies scope make) :
    injector.resolveOn path key state = Assembly.result injector (path ++ [key])
      ⟨key, binding, scope, make, dependencies, .empty⟩ state := by
  rw [resolveOn_factory needs.bound needs.provider, needs.unkept]
  dsimp only
  rw [if_neg needs.fresh]
  rfl

theorem answers_resolveOn (injector : Injector σ ω) (path : List ServiceKey) :
    Answers injector path := by
  induction path using path_induction injector with
  | step path ih =>
  intro key waiting state
  rcases enter_cases injector ⟨.ask key, path, waiting, state⟩ key with
    ⟨outcome, resolved, entered⟩ | ⟨binding, dependencies, scope, make, needs, entered⟩
  · rw [resolved.resolveOn_eq]
    exact .step (congrArg some entered) (.refl _)
  · have below := leads_result (ih key binding needs.bound needs.fresh)
      ⟨key, binding, scope, make, dependencies, .empty⟩ waiting state
    rw [List.dropLast_concat] at below
    rw [resolveOn_eq_result needs]
    exact .step (congrArg some entered) below

end Resolving

-- The path has the services that are being assembled, each of them once. Each is a dependency of
-- the one before it, as are the key that is asked for and all that are still to be asked for.
structure Nesting (injector : Injector σ ω) (path asked : List ServiceKey)
    (assemblies : List (Assembly σ ω)) : Prop where
  stacked : path = (assemblies.map Assembly.key).reverse
  nodup : path.Nodup
  bound : ∀ key ∈ path, injector.contains key = true
  chain : (path ++ asked).IsChain injector.Depends
  owed : ∀ assembly ∈ assemblies, ∀ key ∈ assembly.rest, injector.Depends assembly.key key

namespace Nesting

variable {injector : Injector σ ω} {path asked : List ServiceKey} {key : ServiceKey}
  {assembly : Assembly σ ω} {assemblies : List (Assembly σ ω)}

theorem start (injector : Injector σ ω) (key : ServiceKey) : Nesting injector [] [key] [] where
  stacked := rfl
  nodup := List.nodup_nil
  bound := by simp
  chain := List.isChain_singleton key
  owed := by simp

theorem length_path_le (nesting : Nesting injector path asked assemblies) :
    path.length ≤ injector.size := by
  have within : path ⊆ injector.bindings.keys := by
    intro key member
    have bound := nesting.bound key member
    rwa [contains, ← Table.isSome_get?, ← Table.mem_keys_iff] at bound
  have length := (List.subperm_of_subset nesting.nodup within).length_le
  rwa [Table.keys, List.length_map] at length

theorem answered (nesting : Nesting injector path asked assemblies) :
    Nesting injector path [] assemblies :=
  { nesting with chain := by simpa using nesting.chain.left_of_append }

theorem push (assembly : Assembly σ ω) (nesting : Nesting injector path [assembly.key] assemblies)
    {binding : Binding σ ω} (bound : injector.binding? assembly.key = some binding)
    (dependencies : binding.dependencies = assembly.rest) (fresh : assembly.key ∉ path) :
    Nesting injector (path ++ [assembly.key]) [] (assembly :: assemblies) where
  stacked := by rw [List.map_cons, List.reverse_cons, ← nesting.stacked]
  nodup := by simpa using nesting.nodup.concat fresh
  bound := by
    have contained : injector.contains assembly.key = true := by
      rw [contains, ← Table.isSome_get?, ← binding?, bound]
      rfl
    simpa [or_imp, forall_and, contained] using nesting.bound
  chain := by simpa using nesting.chain
  owed := by
    refine List.forall_mem_cons.2 ⟨fun key member => ?_, nesting.owed⟩
    exact Depends.of_mem bound (dependencies ▸ member)

theorem pop (nesting : Nesting injector path [] (assembly :: assemblies)) :
    Nesting injector path.dropLast [] assemblies := by
  obtain ⟨same, nodup, bound, chain, owed⟩ := nesting
  rw [List.map_cons, List.reverse_cons] at same
  subst same
  rw [List.append_nil] at chain
  rw [List.dropLast_concat]
  exact
    { stacked := rfl
      nodup := nodup.of_append_left
      bound := fun key member => bound key (List.mem_append_left _ member)
      chain := by simpa using chain.left_of_append
      owed := fun other member => owed other (List.mem_cons_of_mem assembly member) }

theorem ask (nesting : Nesting injector path [] (assembly :: assemblies)) {rest : List ServiceKey}
    (split : assembly.rest = key :: rest) :
    Nesting injector path [key] ({ assembly with rest } :: assemblies) := by
  have owed := List.forall_mem_cons.1 nesting.owed
  rw [split] at owed
  have owes := List.forall_mem_cons.1 owed.1
  refine { nesting with stacked := nesting.stacked, chain := ?_, owed := ?_ }
  · have chain := nesting.chain
    rw [nesting.stacked, List.map_cons, List.reverse_cons, List.append_nil] at chain
    rw [nesting.stacked, List.map_cons, List.reverse_cons, List.append_assoc,
      List.singleton_append, List.isChain_split]
    exact ⟨chain, List.isChain_pair.2 owes.1⟩
  · exact List.forall_mem_cons.2 ⟨owes.2, owed.2⟩

theorem supply (nesting : Nesting injector path [] (assembly :: assemblies))
    (supplied : Table ServiceKey (Instance σ)) :
    Nesting injector path [] ({ assembly with supplied } :: assemblies) :=
  { nesting with
    stacked := nesting.stacked
    owed := List.forall_mem_cons.2 (List.forall_mem_cons.1 nesting.owed) }

end Nesting

section Stages

variable {injector : Injector σ ω} {walk next : Walk σ ω}

def Nested (injector : Injector σ ω) (walk : Walk σ ω) : Prop :=
  Nesting injector walk.path walk.asked walk.assemblies

theorem Nested.enter {key : ServiceKey} {path : List ServiceKey}
    {waiting : List (Assembly σ ω × ServiceKey)} {state : ContainerState σ ω}
    (nested : Nested injector ⟨.ask key, path, waiting, state⟩) :
    Nested injector (Walk.enter injector ⟨.ask key, path, waiting, state⟩ key) := by
  rcases enter_cases injector ⟨.ask key, path, waiting, state⟩ key with
    ⟨outcome, -, entered⟩ | ⟨binding, dependencies, scope, make, needs, entered⟩
  · rw [entered]
    exact nested.answered
  · rw [entered]
    exact Nesting.push ⟨key, binding, scope, make, dependencies, .empty⟩ nested needs.bound
      (Binding.dependencies_eq needs.provider) needs.fresh

theorem Nested.step (nested : Nested injector walk) (step : walk.step? injector = some next) :
    Nested injector next := by
  obtain ⟨focus, path, waiting, state⟩ := walk
  cases focus with
  | ask key =>
    obtain rfl := Option.some.inj step
    exact nested.enter
  | assemble assembly =>
    obtain ⟨key, binding, scope, make, rest, supplied⟩ := assembly
    cases rest with
    | nil =>
      obtain rfl := Option.some.inj step
      exact nested.pop
    | cons other rest =>
      obtain rfl := Option.some.inj step
      exact nested.ask rfl
  | answer outcome =>
    cases waiting with
    | nil => cases step
    | cons first waiting =>
      obtain ⟨assembly, awaited⟩ := first
      cases outcome with
      | error error =>
        obtain rfl := Option.some.inj step
        exact nested.pop
      | ok found =>
        obtain rfl := Option.some.inj step
        exact nested.supply _

theorem Nested.run (nested : Nested injector walk) (steps : Nat) :
    Nested injector (walk.run injector steps) := by
  induction steps generalizing walk with
  | zero => exact nested
  | succ steps ih =>
    cases step : walk.step? injector with
    | none => rwa [run_of_stopped step]
    | some next =>
      rw [run_of_step step]
      exact ih (nested.step step)

theorem Nested.depth_le (nested : Nested injector walk) : walk.depth ≤ injector.size + 1 := by
  have waiting : walk.waiting.length ≤ walk.assemblies.length := by
    rw [assemblies]
    split <;> simp
  have path := congrArg List.length nested.stacked
  rw [List.length_reverse, List.length_map] at path
  have length := nested.length_path_le
  rw [depth]
  omega

end Stages

theorem nesting_exact (set : BindingSet σ ω) (key : ServiceKey) (state : ContainerState σ ω) :
    let injector := set.build
    let start : Walk σ ω := ⟨.ask key, [], [], state⟩
    let resolved := injector.resolve key state
    (∃ steps, ∀ more, start.run injector (steps + more) =
        ⟨.answer resolved.1, [], [], resolved.2⟩) ∧
      ∀ steps,
        let walk := start.run injector steps
        walk.path.Nodup ∧ (∀ entered ∈ walk.path, injector.contains entered = true) ∧
          (walk.path ++ walk.asked).IsChain injector.Depends ∧
          walk.path.length ≤ injector.size ∧ walk.depth ≤ injector.size + 1 ∧
          ∀ next, walk.focus = .ask next →
            let answered := injector.resolveOn walk.path next walk.state
            ∃ further, walk.run injector further =
              ⟨.answer answered.1, walk.path, walk.waiting, answered.2⟩ := by
  intro injector start resolved
  constructor
  · obtain ⟨steps, ended⟩ := answers_resolveOn injector [] key [] state
    refine ⟨steps, fun more => ?_⟩
    rw [run_add, ended]
    exact run_of_stopped rfl more
  · intro steps walk
    have begun : Nested injector start := Nesting.start injector key
    have nested := begun.run steps
    refine ⟨nested.nodup, nested.bound, nested.chain, nested.length_path_le, nested.depth_le, ?_⟩
    intro next focus
    have answers := answers_resolveOn injector walk.path next walk.waiting walk.state
    rwa [← focus] at answers

-- Services that need each other are all on the path when the first of them is asked for again.
example :
    let set : BindingSet Unit Unit := .ofList "pair"
      [(⟨"Key"⟩, ⟨"Key", .factory [⟨"Lock"⟩] .singleton fun _ world => ⟨.ok (), world, []⟩⟩),
        (⟨"Lock"⟩, ⟨"Lock", .factory [⟨"Key"⟩] .transient fun _ world => ⟨.ok (), world, []⟩⟩)]
    (run set.build 4 ⟨.ask ⟨"Key"⟩, [], [], .start () []⟩).depth = set.build.size + 1 := by
  rfl

end Walk

end FsmWorkbench
