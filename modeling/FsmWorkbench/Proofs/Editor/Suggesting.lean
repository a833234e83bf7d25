import FsmWorkbench.Proofs.Editor.Referring
import FsmWorkbench.Proofs.Editor.Wording

set_option autoImplicit false

namespace FsmWorkbench

open Text

def CompletionContext.offered (context : CompletionContext) (model : Option Model) :
    List CompletionItem :=
  firstOfRuns CompletionItem.same ((context.items model).mergeSort CompletionItem.le)

def suggestions (line : List Char) (model : Option Model) : List CompletionItem :=
  if hasComment line then []
  else ((CompletionContext.ofWords? (finishedWords line)).map (·.offered model)).getD []

section Places

variable {text : String} {before after : List Char} {offset : Nat} {model : Option Model}

theorem complete_append (split : text.toList = before ++ after) :
    complete text (size before) model = suggestions (lastLine before) model := by
  have within : min (size before) (size text.toList) = size before := by
    rw [split, size_append]
    omega
  rw [complete, completionContext?, within, split, cut?_append, Option.bind_some, suggestions]
  by_cases comment : hasComment (lastLine before) = true
  · simp [comment]
  · simp only [comment]
    cases CompletionContext.ofWords? (finishedWords (lastLine before)) <;> rfl

-- At an offset inside a character, or behind nothing that stands in the text.
theorem complete_of_cut?_eq_none (within : offset ≤ size text.toList)
    (inside : cut? text.toList offset = none) : complete text offset model = [] := by
  rw [complete, completionContext?, Nat.min_eq_left within, inside]
  rfl

theorem suggestions_of_slashes {line : List Char} (slashes : ['/', '/'] <:+: line) :
    suggestions line model = [] := by
  rw [suggestions, if_pos (hasComment_iff.2 slashes)]

theorem suggestions_of_context {line : List Char} {context : CompletionContext}
    (plain : ¬['/', '/'] <:+: line)
    (found : CompletionContext.ofWords? (finishedWords line) = some context) :
    suggestions line model = context.offered model := by
  rw [suggestions, if_neg (mt hasComment_iff.1 plain), found]
  rfl

end Places

section Runs

theorem firstOfRuns_eq_nil_iff {α : Type} {same : α → α → Bool} {xs : List α} :
    firstOfRuns same xs = [] ↔ xs = [] := by
  cases xs with
  | nil => simp [firstOfRuns]
  | cons a rest =>
    rw [firstOfRuns]
    split
    · simp
    · split <;> simp

-- Runs that are told by what a function says are those of its values.
theorem map_firstOfRuns {α β : Type} [BEq β] {same : α → α → Bool} {f : α → β} {xs : List α}
    (told : ∀ a ∈ xs, ∀ b ∈ xs, same a b = (f a == f b)) :
    (firstOfRuns same xs).map f = firstOfRuns (· == ·) (xs.map f) := by
  induction xs with
  | nil => rfl
  | cons a rest ih =>
    have later := ih fun b first c second =>
      told b (List.mem_cons_of_mem a first) c (List.mem_cons_of_mem a second)
    rw [List.map_cons, firstOfRuns, firstOfRuns, ← later]
    cases runs : firstOfRuns same rest with
    | nil => rfl
    | cons b more =>
      have member : b ∈ rest := mem_of_mem_firstOfRuns (runs ▸ List.mem_cons_self)
      simp only [List.map_cons, told a List.mem_cons_self b (List.mem_cons_of_mem a member)]
      split <;> rfl

end Runs

namespace CompletionItem

theorem le_trans (a b c : CompletionItem) : a.le b → b.le c → a.le c := by
  obtain ⟨_, first, _⟩ := a
  obtain ⟨_, second, _⟩ := b
  obtain ⟨_, third, _⟩ := c
  cases first <;> cases second <;> cases third <;> simp [le, ItemKind.rank]
  all_goals exact String.le_trans

theorem le_total (a b : CompletionItem) : (a.le b || b.le a) = true := by
  obtain ⟨_, first, _⟩ := a
  obtain ⟨_, second, _⟩ := b
  cases first <;> cases second <;> simp [le, ItemKind.rank]
  all_goals exact String.le_total ..

end CompletionItem

structure OffersStates (model : Model) (items : List CompletionItem) : Prop where
  states : ∀ item ∈ items, item.kind = .state
  ordered : (items.map CompletionItem.label).Pairwise (· < ·)
  exact : ∀ name, name ∈ items.map CompletionItem.label ↔
    ∃ state ∈ model.states, state.name.text = name

def Model.openers (model : Model) : List Keyword :=
  (if model.machine.isSome then [] else [Keyword.machine]) ++ [.state, .transition]

namespace CompletionContext

variable {context : CompletionContext} {model : Option Model}

theorem offered_eq_nil_iff : context.offered model = [] ↔ context.items model = [] := by
  rw [offered, firstOfRuns_eq_nil_iff, ← List.length_eq_zero_iff, List.length_mergeSort,
    List.length_eq_zero_iff]

theorem offersStates_offered (model : Model) :
    OffersStates model (stateName.offered (some model)) := by
  let sorted := (stateName.items (some model)).mergeSort CompletionItem.le
  have states : ∀ item ∈ sorted, item.kind = .state := by
    intro item member
    obtain ⟨state, -, rfl⟩ := List.mem_map.1 (List.mem_mergeSort.1 member)
    rfl
  have labels : (stateName.offered (some model)).map CompletionItem.label =
      firstOfRuns (· == ·) (sorted.map CompletionItem.label) := by
    refine map_firstOfRuns fun a first b second => ?_
    simp [CompletionItem.same, states a first, states b second]
  have order : sorted.Pairwise fun a b => a.le b = true :=
    List.pairwise_mergeSort CompletionItem.le_trans CompletionItem.le_total _
  refine ⟨fun item member => states item (mem_of_mem_firstOfRuns member), ?_, fun name => ?_⟩
  · rw [labels]
    refine pairwise_firstOfRuns String.lt_trans (List.pairwise_map.2 ?_)
    refine order.imp_of_mem fun {a b} first second below => ?_
    simp only [CompletionItem.le, states a first, states b second, if_true,
      decide_eq_true_eq] at below
    exact le_iff_eq_or_lt.1 below
  · rw [labels, mem_firstOfRuns_iff, List.mem_map]
    simp [sorted, List.mem_mergeSort, items, CompletionItem.ofState]

theorem offered_declaration (model : Model) :
    declaration.offered (some model) = model.openers.map CompletionItem.ofKeyword := by
  have ordered : (model.openers.map CompletionItem.ofKeyword).Pairwise
      fun a b => a.le b = true := by
    rw [Model.openers]
    cases model.machine.isSome <;> decide
  have same : declaration.items (some model) = model.openers.map CompletionItem.ofKeyword := rfl
  rw [offered, same, List.mergeSort_of_pairwise ordered, Model.openers]
  cases model.machine.isSome <;> decide

theorem offered_keyword (word : Keyword) :
    (keyword word).offered model = [CompletionItem.ofKeyword word] := by
  rw [offered, items, List.mergeSort_singleton]
  rfl

end CompletionContext

end FsmWorkbench
