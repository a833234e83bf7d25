import FsmWorkbench.Proofs.Validation.Rules
import Mathlib.Data.List.Induction

set_option autoImplicit false

namespace FsmWorkbench

section Echoes

variable {α β : Type} (agree : α → α → Bool)

-- The items that an earlier one agrees with.
def echoes (items : List α) : List α :=
  (items.zipIdx.filter fun entry =>
    (items.take entry.2).any fun earlier => agree earlier entry.1).map Prod.fst

theorem echoes_concat (items : List α) (item : α) :
    echoes agree (items ++ [item]) =
      echoes agree items ++ if items.any fun earlier => agree earlier item then [item] else [] := by
  have before : (items.zipIdx.filter fun entry =>
        ((items ++ [item]).take entry.2).any fun earlier => agree earlier entry.1) =
      items.zipIdx.filter fun entry =>
        (items.take entry.2).any fun earlier => agree earlier entry.1 := by
    refine List.filter_congr fun entry member => ?_
    have place := List.snd_lt_of_mem_zipIdx member
    rw [List.take_append_of_le_length (by omega)]
  rw [echoes, List.zipIdx_append, List.filter_append, before, List.map_append, ← echoes]
  simp only [Nat.zero_add, List.zipIdx_singleton, List.filter_cons, List.filter_nil, List.take_left]
  split <;> simp_all

theorem echoes_map (change : β → α) (items : List β) :
    echoes agree (items.map change) =
      (echoes (fun a b => agree (change a) (change b)) items).map change := by
  induction items using List.reverseRecOn with
  | nil => rfl
  | append_singleton items item ih =>
    rw [List.map_append, List.map_singleton, echoes_concat, echoes_concat, ih, List.map_append,
      List.any_map]
    split <;> simp_all

end Echoes

theorem repeated_concat (seen : List String) (names : List Name) (name : Name) :
    repeated seen (names ++ [name]) =
      repeated seen names ++
        if name.text ∈ seen ∨ ∃ earlier ∈ names, earlier.text = name.text then [name] else [] := by
  induction names generalizing seen with
  | nil => simp [repeated]
  | cons first names ih =>
    rw [List.cons_append, repeated, repeated, ih, ih]
    by_cases same : first.text = name.text
    · split <;> simp_all
    · split <;> simp [same, Ne.symm same]

theorem repeated_eq (names : List Name) :
    repeated [] names = echoes (fun a b => a.text == b.text) names := by
  induction names using List.reverseRecOn with
  | nil => rfl
  | append_singleton names name ih => simp [repeated_concat, echoes_concat, ih]

-- Of what is kept, all but the first has something kept before it.
theorem tail_filter {α : Type} (keep : α → Bool) (items : List α) :
    (items.filter keep).tail = echoes (fun a b => keep a && keep b) items := by
  induction items using List.reverseRecOn with
  | nil => rfl
  | append_singleton items item ih =>
    rw [List.filter_append, echoes_concat, ← ih]
    cases kept : items.filter keep with
    | nil =>
      have none := List.filter_eq_nil_iff.1 kept
      cases chosen : keep item <;> simp_all
    | cons first more =>
      have some : items.any keep = true :=
        List.any_eq_true.2 ⟨first, List.mem_filter.1 (kept ▸ List.mem_cons_self)⟩
      cases chosen : keep item <;> simp_all

namespace Model

def unstarted (model : Model) : List Issue :=
  match model.states with
  | [] => []
  | first :: _ =>
    if ∃ state ∈ model.states, state.initial = true then []
    else [⟨.noInitialState, (model.machine.elim first.name MachineDecl.name).span⟩]

/-- What is wrong with a model: names of states and of transitions that are given again, ends of
transitions that no state has for a name, and no initial state or more than one. -/
def breaches (model : Model) : List Issue :=
  ((echoes (fun a b => a.name.text == b.name.text) model.states).map fun state =>
    ⟨.duplicateState state.name.text, state.name.span⟩) ++
  ((echoes (fun a b => a.name.text == b.name.text) model.transitions).map fun transition =>
    ⟨.duplicateTransition transition.name.text, transition.name.span⟩) ++
  (((model.transitions.flatMap fun transition => [transition.source, transition.target]).filter
    fun name => ∀ state ∈ model.states, state.name.text ≠ name.text).map fun name =>
      ⟨.undefinedState name.text, name.span⟩) ++
  model.unstarted ++
  ((echoes (fun a b => a.initial && b.initial) model.states).map fun state =>
    ⟨.extraInitialState state.name.text, state.name.span⟩)

variable {model : Model}

theorem duplicateStates_eq : model.duplicateStates =
    (echoes (fun a b => a.name.text == b.name.text) model.states).map fun state =>
      ⟨.duplicateState state.name.text, state.name.span⟩ := by
  rw [duplicateStates, repeated_eq, echoes_map, List.map_map]
  rfl

theorem duplicateTransitions_eq : model.duplicateTransitions =
    (echoes (fun a b => a.name.text == b.name.text) model.transitions).map fun transition =>
      ⟨.duplicateTransition transition.name.text, transition.name.span⟩ := by
  rw [duplicateTransitions, repeated_eq, echoes_map, List.map_map]
  rfl

theorem declares_iff {name : String} :
    model.declares name = true ↔ ∃ state ∈ model.states, state.name.text = name := by
  simp [declares]

theorem undefinedStates_eq : model.undefinedStates =
    ((model.transitions.flatMap fun transition => [transition.source, transition.target]).filter
      fun name => ∀ state ∈ model.states, state.name.text ≠ name.text).map fun name =>
        ⟨.undefinedState name.text, name.span⟩ := by
  rw [undefinedStates]
  refine congrArg (List.map _) (List.filter_congr fun name _ => ?_)
  rw [Bool.eq_iff_iff, Bool.not_eq_true', ← Bool.not_eq_true, declares_iff]
  simp

theorem initialIssues_eq : model.initialIssues = model.unstarted ++
    (echoes (fun a b => a.initial && b.initial) model.states).map fun state =>
      ⟨.extraInitialState state.name.text, state.name.span⟩ := by
  have extra : model.initialStates.tail =
      echoes (fun a b => a.initial && b.initial) model.states := tail_filter ..
  have starts : model.initialStates = [] ↔ ¬∃ state ∈ model.states, state.initial = true := by
    simp [initialStates, List.filter_eq_nil_iff]
  rw [← extra, initialIssues, unstarted]
  cases listed : model.states with
  | nil => simp [initialStates, listed]
  | cons first more =>
    rw [listed] at starts
    cases chosen : model.initialStates with
    | nil =>
      dsimp only
      rw [if_neg (starts.1 chosen)]
      cases named : model.machine <;> simp [headline?, named, listed]
    | cons state extra =>
      have some : ∃ state ∈ first :: more, state.initial = true :=
        by_contra fun none => List.cons_ne_nil state extra (chosen.symm.trans (starts.2 none))
      dsimp only
      rw [if_pos some, List.nil_append]

theorem breaches_exact (model : Model) :
    (model.coreIssues.Pairwise fun a b =>
      a.span.start < b.span.start ∨ a.span.start = b.span.start ∧ a.code ≤ b.code) ∧
    model.coreIssues.Perm model.breaches ∧
    (model.coreIssues = [] ↔
      (model.states.map fun state => state.name.text).Nodup ∧
      (model.transitions.map fun transition => transition.name.text).Nodup ∧
      (∀ transition ∈ model.transitions, ∀ name ∈ [transition.source, transition.target],
        ∃ state ∈ model.states, state.name.text = name.text) ∧
      (model.states = [] ∨ model.states.countP StateDecl.initial = 1)) := by
  have reported : model.coreIssues = Issue.arrange model.breaches := by
    rw [coreIssues, duplicateStates_eq, duplicateTransitions_eq, undefinedStates_eq,
      initialIssues_eq, ← List.append_assoc]
    rfl
  have once : model.states.countP StateDecl.initial = 1 ↔
      ∃ state, model.initialStates = [state] := by
    rw [List.countP_eq_length_filter, List.length_eq_one_iff]
    rfl
  refine ⟨?_, ?_, ?_⟩
  · rw [reported]
    exact (Issue.arrange_sorted _).imp Issue.le_iff.1
  · rw [reported]
    exact Issue.arrange_perm _
  · rw [coreIssues_eq_nil_iff, once]
    constructor
    · rintro ⟨states, transitions, declared, initial⟩
      exact ⟨states, transitions, fun transition listed name ending =>
        declares_iff.1 (declared transition listed name ending), initial⟩
    · rintro ⟨states, transitions, declared, initial⟩
      exact ⟨states, transitions, fun transition listed name ending =>
        declares_iff.2 (declared transition listed name ending), initial⟩

end Model

end FsmWorkbench
