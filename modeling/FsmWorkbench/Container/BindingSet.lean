import FsmWorkbench.Container.Binding

set_option autoImplicit false

namespace FsmWorkbench

structure BindingSet (σ ω : Type) where
  name : String
  bindings : Table ServiceKey (Binding σ ω)

namespace BindingSet

variable {σ ω : Type}

def empty (name : String) : BindingSet σ ω := ⟨name, .empty⟩

instance : Inhabited (BindingSet σ ω) := ⟨empty ""⟩

def get? (set : BindingSet σ ω) (key : ServiceKey) : Option (Binding σ ω) :=
  set.bindings.get? key

def keys (set : BindingSet σ ω) : List ServiceKey :=
  set.bindings.keys

def size (set : BindingSet σ ω) : Nat :=
  set.bindings.size

def bind (set : BindingSet σ ω) (key : ServiceKey) (binding : Binding σ ω) : BindingSet σ ω :=
  { set with bindings := set.bindings.put key binding }

def bindEvents (set : BindingSet σ ω) (key : ServiceKey) (binding : Binding σ ω) : List Event :=
  if set.bindings.contains key then [.registeredAgain set.name key binding.implementation] else []

def ofList (name : String) (bindings : List (ServiceKey × Binding σ ω)) : BindingSet σ ω :=
  bindings.foldl (fun set entry => set.bind entry.1 entry.2) (empty name)

def eventsOfList (name : String) (bindings : List (ServiceKey × Binding σ ω)) : List Event :=
  (bindings.foldl (fun (set, events) entry =>
    (set.bind entry.1 entry.2, events ++ set.bindEvents entry.1 entry.2))
    ((empty name : BindingSet σ ω), [])).2

-- The order of the base stays, and what only the overrides bind follows in their order.
def mergedEntries (base overrides : BindingSet σ ω) : List (ServiceKey × Binding σ ω) :=
  base.bindings.entries.map (fun entry => (entry.1, (overrides.get? entry.1).getD entry.2)) ++
    overrides.bindings.entries.filter fun entry => !base.bindings.contains entry.1

theorem nodup_mergedEntries (base overrides : BindingSet σ ω) :
    ((mergedEntries base overrides).map Prod.fst).Nodup := by
  have same : (base.bindings.entries.map fun entry =>
      (entry.1, (overrides.get? entry.1).getD entry.2)).map Prod.fst = base.keys := by
    simp [keys, Table.keys, Function.comp_def]
  rw [mergedEntries, List.map_append, same, List.nodup_append]
  refine ⟨base.bindings.nodup, ?_, ?_⟩
  · exact overrides.bindings.nodup.sublist ((List.filter_sublist ..).map Prod.fst)
  · intro a ha b hb hab
    subst hab
    obtain ⟨entry, member, rfl⟩ := List.mem_map.1 hb
    have absent := (List.mem_filter.1 member).2
    simp only [Table.contains, Bool.not_eq_true'] at absent
    simp_all [keys]

def merge (base overrides : BindingSet σ ω) : BindingSet σ ω where
  name := base.name ++ "+" ++ overrides.name
  bindings := ⟨mergedEntries base overrides, nodup_mergedEntries base overrides⟩

def mergeEvents (base overrides : BindingSet σ ω) : List Event :=
  base.bindings.entries.filterMap fun (key, old) =>
    (overrides.get? key).map fun new =>
      .overrode overrides.name key old.implementation new.implementation

def mergeAll : List (BindingSet σ ω) → BindingSet σ ω
  | [] => empty "empty"
  | first :: rest => rest.foldl merge first

def mergeAllEvents : List (BindingSet σ ω) → List Event
  | [] => []
  | first :: rest =>
    (rest.foldl (fun (base, events) set => (base.merge set, events ++ base.mergeEvents set))
      (first, [])).2

theorem get?_bind (set : BindingSet σ ω) (key other : ServiceKey) (binding : Binding σ ω) :
    (set.bind key binding).get? other = if other = key then some binding else set.get? other := by
  simp [bind, get?]

theorem get?_merge (base overrides : BindingSet σ ω) (key : ServiceKey) :
    (base.merge overrides).get? key = (overrides.get? key).or (base.get? key) := by
  have fallback (entries : List (ServiceKey × Binding σ ω)) :
      (entries.map fun entry => (entry.1, (overrides.get? entry.1).getD entry.2)).lookup key =
        (entries.lookup key).map fun old => (overrides.get? key).getD old := by
    induction entries with
    | nil => rfl
    | cons entry rest ih =>
      obtain ⟨first, binding⟩ := entry
      by_cases h : key = first
      · subst h
        simp
      · simp [List.lookup_cons, beq_false_of_ne h, ih]
  have added (entries : List (ServiceKey × Binding σ ω)) :
      (entries.filter fun entry => !base.bindings.contains entry.1).lookup key =
        if base.bindings.contains key then none else entries.lookup key := by
    induction entries with
    | nil => simp
    | cons entry rest ih =>
      obtain ⟨first, binding⟩ := entry
      rw [List.filter_cons]
      by_cases h : key = first
      · subst h
        split <;> simp_all
      · split <;> simp [List.lookup_cons, beq_false_of_ne h, ih]
  have bound := base.bindings.isSome_get? key
  simp only [get?, Table.get?, merge, mergedEntries] at *
  rw [List.lookup_append, fallback, added]
  cases hb : base.bindings.entries.lookup key with
  | none => simp_all
  | some old => cases ho : overrides.bindings.entries.lookup key <;> simp_all

end BindingSet

end FsmWorkbench
