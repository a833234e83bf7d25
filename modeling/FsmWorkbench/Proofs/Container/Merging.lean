import FsmWorkbench.Container.BindingSet
import Mathlib.Data.List.Induction

set_option autoImplicit false

namespace FsmWorkbench

namespace Table

variable {κ ν : Type} [DecidableEq κ]

def putAll (table : Table κ ν) (entries : List (κ × ν)) : Table κ ν :=
  entries.foldl (fun filled entry => filled.put entry.1 entry.2) table

@[simp] theorem putAll_nil (table : Table κ ν) : table.putAll [] = table := rfl

@[simp] theorem putAll_append (table : Table κ ν) (first second : List (κ × ν)) :
    table.putAll (first ++ second) = (table.putAll first).putAll second :=
  List.foldl_append

@[simp] theorem putAll_cons (table : Table κ ν) (entry : κ × ν) (entries : List (κ × ν)) :
    table.putAll (entry :: entries) = (table.put entry.1 entry.2).putAll entries := rfl

theorem mem_keys_putAll {table : Table κ ν} {entries : List (κ × ν)} {key : κ} :
    key ∈ (table.putAll entries).keys ↔ key ∈ entries.map Prod.fst ∨ key ∈ table.keys := by
  induction entries generalizing table with
  | nil => simp
  | cons entry entries ih =>
    rw [putAll_cons, ih, mem_keys_put, List.map_cons, List.mem_cons]
    tauto

theorem get?_putAll_of_not_mem {table : Table κ ν} {entries : List (κ × ν)} {key : κ}
    (absent : key ∉ entries.map Prod.fst) : (table.putAll entries).get? key = table.get? key := by
  induction entries generalizing table with
  | nil => rfl
  | cons entry entries ih =>
    rw [List.map_cons, List.mem_cons, not_or] at absent
    rw [putAll_cons, ih absent.2, get?_put, if_neg absent.1]

theorem get?_putAll_of_last (table : Table κ ν) (before : List (κ × ν)) {key : κ} (value : ν)
    {after : List (κ × ν)} (last : key ∉ after.map Prod.fst) :
    (table.putAll (before ++ (key, value) :: after)).get? key = some value := by
  rw [putAll_append, putAll_cons, get?_putAll_of_not_mem last, get?_put, if_pos rfl]

theorem get?_putAll (table : Table κ ν) (entries : List (κ × ν)) (key : κ) :
    (table.putAll entries).get? key = (entries.reverse.lookup key).or (table.get? key) := by
  induction entries using List.reverseRecOn with
  | nil => rfl
  | append_singleton entries entry ih =>
    obtain ⟨first, value⟩ := entry
    rw [putAll_append, putAll_cons, putAll_nil, get?_put, ih, List.reverse_concat]
    by_cases same : key = first
    · simp [same]
    · rw [if_neg same, List.lookup_cons, beq_false_of_ne same]

-- Each step either keeps the keys or adds one that comes first at the end of the list.
theorem keys_putAll_ordered (entries : List (κ × ν)) :
    ((empty : Table κ ν).putAll entries).keys.Pairwise fun first second =>
      (entries.map Prod.fst).idxOf first < (entries.map Prod.fst).idxOf second := by
  induction entries using List.reverseRecOn with
  | nil => exact .nil
  | append_singleton entries entry ih =>
    have known {key : κ} (member : key ∈ ((empty : Table κ ν).putAll entries).keys) :
        key ∈ entries.map Prod.fst :=
      (mem_keys_putAll.1 member).resolve_right List.not_mem_nil
    have earlier : ((empty : Table κ ν).putAll entries).keys.Pairwise fun first second =>
        ((entries ++ [entry]).map Prod.fst).idxOf first <
          ((entries ++ [entry]).map Prod.fst).idxOf second := by
      refine ih.imp_of_mem fun inside within less => ?_
      rwa [List.map_append, List.idxOf_append, List.idxOf_append, if_pos (known inside),
        if_pos (known within)]
    rw [putAll_append, putAll_cons, putAll_nil, keys_put]
    split
    · exact earlier
    · next fresh =>
      have absent : entry.1 ∉ entries.map Prod.fst :=
        fun member => fresh (mem_keys_putAll.2 (.inl member))
      rw [List.pairwise_append]
      refine ⟨earlier, List.pairwise_singleton .., ?_⟩
      intro key member last same
      rw [List.mem_singleton.1 same, List.map_append, List.idxOf_append, List.idxOf_append,
        if_pos (known member), if_neg absent]
      have := List.idxOf_lt_length_of_mem (known member)
      omega

end Table

namespace BindingSet

variable {σ ω : Type}

theorem bindings_ofList (name : String) (bindings : List (ServiceKey × Binding σ ω)) :
    (ofList name bindings).bindings = Table.empty.putAll bindings := by
  have from_set (set : BindingSet σ ω) :
      (bindings.foldl (fun set entry => set.bind entry.1 entry.2) set).bindings =
        set.bindings.putAll bindings := by
    induction bindings generalizing set with
    | nil => rfl
    | cons entry bindings ih => exact ih (set.bind entry.1 entry.2)
  exact from_set (empty name)

theorem get?_ofList (name : String) (bindings : List (ServiceKey × Binding σ ω))
    (key : ServiceKey) : (ofList name bindings).get? key = bindings.reverse.lookup key := by
  rw [get?, bindings_ofList, Table.get?_putAll]
  exact Option.or_none

theorem keys_merge (base overrides : BindingSet σ ω) :
    (base.merge overrides).keys =
      base.keys ++ overrides.keys.filter fun key => !base.bindings.contains key := by
  simp [merge, mergedEntries, keys, Table.keys, List.filter_map, Function.comp_def]

theorem merge_bind (base overrides : BindingSet σ ω) (key : ServiceKey) (binding : Binding σ ω) :
    (base.merge (overrides.bind key binding)).bindings =
      (base.merge overrides).bindings.put key binding := by
  apply Table.eq_of_get?
  · have bound : (overrides.bind key binding).keys =
        if key ∈ overrides.keys then overrides.keys else overrides.keys ++ [key] :=
      Table.keys_put ..
    have merged := keys_merge base overrides
    calc (base.merge (overrides.bind key binding)).keys
        = base.keys ++ (overrides.bind key binding).keys.filter
            fun key => !base.bindings.contains key := keys_merge ..
      _ = if key ∈ (base.merge overrides).keys then (base.merge overrides).keys
          else (base.merge overrides).keys ++ [key] := by
        rw [bound, merged]
        by_cases inBase : key ∈ base.keys <;> by_cases known : key ∈ overrides.keys <;>
          simp_all [Table.contains, keys]
      _ = ((base.merge overrides).bindings.put key binding).keys := (Table.keys_put ..).symm
  · intro other
    have merged := get?_merge base (overrides.bind key binding) other
    rw [get?_bind] at merged
    rw [Table.get?_put]
    refine merged.trans ?_
    split
    · rfl
    · exact (get?_merge base overrides other).symm

theorem merge_empty (base : BindingSet σ ω) (name : String) :
    (base.merge (empty name)).bindings = base.bindings := by
  apply Table.eq_of_get?
  · have keys := keys_merge base (empty name)
    exact keys.trans (List.append_nil _)
  · intro key
    exact (get?_merge base (empty name) key).trans (Option.none_or)

theorem merge_ofList (base : BindingSet σ ω) (name : String)
    (bindings : List (ServiceKey × Binding σ ω)) :
    (base.merge (ofList name bindings)).bindings = base.bindings.putAll bindings := by
  induction bindings using List.reverseRecOn with
  | nil => exact merge_empty base name
  | append_singleton bindings entry ih =>
    have last : ofList name (bindings ++ [entry]) =
        (ofList name bindings).bind entry.1 entry.2 := by
      rw [ofList, List.foldl_append]
      rfl
    rw [last, merge_bind, ih, Table.putAll_append]
    rfl

theorem mergeAll_ofList (first : String × List (ServiceKey × Binding σ ω))
    (rest : List (String × List (ServiceKey × Binding σ ω))) :
    (mergeAll ((first :: rest).map fun set => ofList set.1 set.2)).bindings =
      Table.empty.putAll ((first :: rest).flatMap Prod.snd) := by
  have onto (base : BindingSet σ ω) :
      ((rest.map fun set => ofList set.1 set.2).foldl merge base).bindings =
        base.bindings.putAll (rest.flatMap Prod.snd) := by
    induction rest generalizing base with
    | nil => rfl
    | cons next rest ih =>
      rw [List.map_cons, List.foldl_cons, ih, merge_ofList, List.flatMap_cons, Table.putAll_append]
  rw [List.map_cons, mergeAll, onto, bindings_ofList, List.flatMap_cons, Table.putAll_append]

theorem get?_mergeAll (sets : List (BindingSet σ ω)) (key : ServiceKey) :
    (mergeAll sets).get? key = sets.reverse.findSome? fun set => set.get? key := by
  have onto (base : BindingSet σ ω) (rest : List (BindingSet σ ω)) :
      (rest.foldl merge base).get? key =
        (rest.reverse.findSome? fun set => set.get? key).or (base.get? key) := by
    induction rest generalizing base with
    | nil => rfl
    | cons next rest ih =>
      rw [List.foldl_cons, ih, get?_merge, List.reverse_cons, List.findSome?_append,
        Option.or_assoc]
      simp
  cases sets with
  | nil => rfl
  | cons first rest =>
    rw [mergeAll, onto, List.reverse_cons, List.findSome?_append]
    simp

theorem merge_assoc (first second third : BindingSet σ ω) :
    (first.merge second).merge third = first.merge (second.merge third) := by
  have keys : ((first.merge second).merge third).keys =
      (first.merge (second.merge third)).keys := by
    simp only [keys_merge, List.filter_append, List.append_assoc, List.filter_filter]
    congr 2
    apply List.filter_congr
    intro key _
    rw [← Table.isSome_get?, ← Table.isSome_get?, ← Table.isSome_get?]
    have merged := get?_merge first second key
    simp only [get?] at merged
    rw [merged]
    cases first.bindings.get? key <;> cases second.bindings.get? key <;> rfl
  have bindings : ((first.merge second).merge third).bindings =
      (first.merge (second.merge third)).bindings := by
    apply Table.eq_of_get? keys
    intro key
    have same : ((first.merge second).merge third).get? key =
        (first.merge (second.merge third)).get? key := by
      simp only [get?_merge, Option.or_assoc]
    exact same
  have name : ((first.merge second).merge third).name =
      (first.merge (second.merge third)).name := by
    simp only [merge, String.append_assoc]
  generalize (first.merge second).merge third = left at *
  generalize first.merge (second.merge third) = right at *
  obtain ⟨_, _⟩ := left
  obtain ⟨_, _⟩ := right
  obtain rfl := name
  obtain rfl := bindings
  rfl

theorem merge_self (set : BindingSet σ ω) : (set.merge set).bindings = set.bindings := by
  apply Table.eq_of_get?
  · have keys := keys_merge set set
    refine keys.trans ?_
    simp [Table.contains, BindingSet.keys]
  · intro key
    exact (get?_merge set set key).trans (Option.or_self)

theorem empty_merge (name : String) (set : BindingSet σ ω) :
    ((empty name).merge set).bindings = set.bindings := by
  apply Table.eq_of_get?
  · have keys := keys_merge (empty name) set
    refine keys.trans ?_
    exact List.filter_eq_self.2 fun key _ => rfl
  · intro key
    exact (get?_merge (empty name) set key).trans (Option.or_none)

theorem get?_mergeAll_of_last (before : List (BindingSet σ ω)) {after : List (BindingSet σ ω)}
    {set : BindingSet σ ω} {key : ServiceKey} {binding : Binding σ ω}
    (bound : set.get? key = some binding) (last : ∀ later ∈ after, key ∉ later.keys) :
    (mergeAll (before ++ set :: after)).get? key = some binding := by
  have passed : after.reverse.findSome? (fun set => set.get? key) = none := by
    rw [List.findSome?_eq_none_iff]
    intro other member
    rw [← Option.not_isSome_iff_eq_none]
    exact fun some => last other (List.mem_reverse.1 member) (Table.mem_keys_iff.2 some)
  rw [get?_mergeAll, List.reverse_append, List.reverse_cons, List.findSome?_append,
    List.findSome?_append, passed]
  simp [bound]

theorem mem_keys_mergeAll {sets : List (BindingSet σ ω)} {key : ServiceKey} :
    key ∈ (mergeAll sets).keys ↔ ∃ set ∈ sets, key ∈ set.keys := by
  rw [keys, Table.mem_keys_iff]
  have found := congrArg Option.isSome (get?_mergeAll sets key)
  rw [get?] at found
  rw [found, List.isSome_findSome?, List.any_reverse, List.any_eq_true]
  simp only [keys, Table.mem_keys_iff, get?]

theorem merge_exact (sets : List (String × List (ServiceKey × Binding σ ω))) :
    let registered := sets.flatMap Prod.snd
    let order := registered.map Prod.fst
    let merged := mergeAll (sets.map fun set => ofList set.1 set.2)
    (∀ name, merged.bindings = (ofList name registered).bindings) ∧
      merged.keys.Nodup ∧ (∀ key, key ∈ merged.keys ↔ key ∈ order) ∧
      (merged.keys.Pairwise fun first second => order.idxOf first < order.idxOf second) ∧
      (∀ before key binding after, registered = before ++ (key, binding) :: after →
        key ∉ after.map Prod.fst → merged.get? key = some binding) ∧
      (∀ (before after : List (BindingSet σ ω)) set key binding, set.get? key = some binding →
        (∀ later ∈ after, key ∉ later.keys) →
          (mergeAll (before ++ set :: after)).get? key = some binding) ∧
      (∀ (many : List (BindingSet σ ω)) key, key ∈ (mergeAll many).keys ↔
        ∃ set ∈ many, key ∈ set.keys) ∧
      (∀ first second third : BindingSet σ ω,
        (first.merge second).merge third = first.merge (second.merge third)) ∧
      ∀ set : BindingSet σ ω, (set.merge set).bindings = set.bindings ∧
        ∀ name, (set.merge (empty name)).bindings = set.bindings ∧
          ((empty name).merge set).bindings = set.bindings := by
  intro registered order merged
  have placed : merged.bindings = Table.empty.putAll registered := by
    cases sets with
    | nil => rfl
    | cons first rest => exact mergeAll_ofList first rest
  refine ⟨?_, merged.bindings.nodup, ?_, ?_, ?_, ?_, ?_, merge_assoc, ?_⟩
  · intro name
    rw [placed, bindings_ofList]
  · intro key
    rw [keys, placed, Table.mem_keys_putAll]
    exact or_iff_left List.not_mem_nil
  · rw [keys, placed]
    exact Table.keys_putAll_ordered registered
  · intro before key binding after split last
    rw [get?, placed, split]
    exact Table.get?_putAll_of_last .empty before binding last
  · exact fun before _ _ _ _ bound last => get?_mergeAll_of_last before bound last
  · exact fun _ _ => mem_keys_mergeAll
  · exact fun set => ⟨merge_self set, fun name => ⟨merge_empty set name, empty_merge name set⟩⟩

theorem merge_exact_overlap :
    let made (value : Nat) : Binding Nat Unit := ⟨"made", .prebuilt value⟩
    let base := ofList "base" [(⟨"a"⟩, made 0), (⟨"b"⟩, made 1), (⟨"a"⟩, made 2)]
    let overrides := ofList "ide" [(⟨"c"⟩, made 3), (⟨"b"⟩, made 4)]
    (mergeAll [base, overrides]).keys = [⟨"a"⟩, ⟨"b"⟩, ⟨"c"⟩] ∧
      (mergeAll [base, overrides]).get? ⟨"a"⟩ = some (made 2) ∧
      (mergeAll [base, overrides]).get? ⟨"b"⟩ = some (made 4) := by
  intro made base overrides
  obtain ⟨same, -, -, -, last, later, -⟩ := merge_exact
    [("base", [(⟨"a"⟩, made 0), (⟨"b"⟩, made 1), (⟨"a"⟩, made 2)]),
      ("ide", [(⟨"c"⟩, made 3), (⟨"b"⟩, made 4)])]
  refine ⟨congrArg Table.keys (same "all"), ?_, ?_⟩
  · exact last [(⟨"a"⟩, made 0), (⟨"b"⟩, made 1)] ⟨"a"⟩ (made 2) [(⟨"c"⟩, made 3), (⟨"b"⟩, made 4)]
      rfl (by decide)
  · exact later [base] [] overrides ⟨"b"⟩ (made 4) rfl (by simp)

end BindingSet

end FsmWorkbench
