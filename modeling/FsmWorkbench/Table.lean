set_option autoImplicit false

namespace FsmWorkbench

structure Table (κ ν : Type) where
  entries : List (κ × ν)
  nodup : (entries.map Prod.fst).Nodup

namespace Table

variable {κ ν : Type}

def empty : Table κ ν := ⟨[], List.nodup_nil⟩

instance : Inhabited (Table κ ν) := ⟨empty⟩

def keys (table : Table κ ν) : List κ :=
  table.entries.map Prod.fst

def size (table : Table κ ν) : Nat :=
  table.entries.length

variable [DecidableEq κ]

def get? (table : Table κ ν) (key : κ) : Option ν :=
  table.entries.lookup key

def contains (table : Table κ ν) (key : κ) : Bool :=
  table.keys.contains key

def putEntry (entries : List (κ × ν)) (key : κ) (value : ν) : List (κ × ν) :=
  match entries with
  | [] => [(key, value)]
  | entry :: rest =>
    if entry.1 = key then (key, value) :: rest else entry :: putEntry rest key value

theorem mem_keys_putEntry {entries : List (κ × ν)} {key other : κ} {value : ν} :
    other ∈ (putEntry entries key value).map Prod.fst ↔
      other = key ∨ other ∈ entries.map Prod.fst := by
  induction entries with
  | nil => simp [putEntry]
  | cons entry rest ih =>
    rw [putEntry]
    split
    · next same => simp [same]
    · simp only [List.map_cons, List.mem_cons, ih]
      constructor <;> rintro (h | h | h) <;> simp [h]

theorem nodup_putEntry {entries : List (κ × ν)} (key : κ) (value : ν)
    (nodup : (entries.map Prod.fst).Nodup) :
    ((putEntry entries key value).map Prod.fst).Nodup := by
  induction entries with
  | nil => simp [putEntry]
  | cons entry rest ih =>
    rw [List.map_cons, List.nodup_cons] at nodup
    rw [putEntry]
    split
    · next same => simpa [← same] using nodup
    · next different =>
      rw [List.map_cons, List.nodup_cons, mem_keys_putEntry]
      exact ⟨fun h => h.elim different nodup.1, ih nodup.2⟩

theorem lookup_putEntry (entries : List (κ × ν)) (key other : κ) (value : ν) :
    (putEntry entries key value).lookup other =
      if other = key then some value else entries.lookup other := by
  induction entries with
  | nil =>
    by_cases h : other = key
    · simp [putEntry, h]
    · simp [putEntry, List.lookup_cons, h, beq_false_of_ne h]
  | cons entry rest ih =>
    obtain ⟨first, old⟩ := entry
    rw [putEntry]
    split
    · next same =>
      simp only at same
      subst same
      by_cases h : other = first
      · simp [h]
      · simp [List.lookup_cons, h, beq_false_of_ne h]
    · next different =>
      simp only at different
      by_cases h : other = first
      · subst h
        simp [different]
      · simp [List.lookup_cons, beq_false_of_ne h, ih]

-- A key that is there already keeps its place; a new one goes to the end.
def put (table : Table κ ν) (key : κ) (value : ν) : Table κ ν :=
  ⟨putEntry table.entries key value, nodup_putEntry key value table.nodup⟩

def erase (table : Table κ ν) (key : κ) : Table κ ν where
  entries := table.entries.filter fun entry => !decide (entry.1 = key)
  nodup := table.nodup.sublist ((List.filter_sublist ..).map Prod.fst)

@[simp] theorem get?_empty (key : κ) : (empty : Table κ ν).get? key = none := rfl

@[simp] theorem get?_put (table : Table κ ν) (key other : κ) (value : ν) :
    (table.put key value).get? other = if other = key then some value else table.get? other :=
  lookup_putEntry ..

@[simp] theorem get?_erase (table : Table κ ν) (key other : κ) :
    (table.erase key).get? other = if other = key then none else table.get? other := by
  obtain ⟨entries, nodup⟩ := table
  simp only [get?, erase]
  clear nodup
  induction entries with
  | nil => simp
  | cons entry rest ih =>
    obtain ⟨first, value⟩ := entry
    rw [List.filter_cons]
    by_cases h : first = key
    · subst h
      by_cases same : other = first
      · subst same
        simpa using ih
      · simp [ih, same, List.lookup_cons, beq_false_of_ne same]
    · by_cases same : other = first
      · subst same
        simp [h]
      · simp [h, List.lookup_cons, beq_false_of_ne same, ih]

theorem isSome_get? (table : Table κ ν) (key : κ) :
    (table.get? key).isSome = table.contains key := by
  obtain ⟨entries, nodup⟩ := table
  simp only [get?, contains, keys]
  clear nodup
  induction entries with
  | nil => rfl
  | cons entry rest ih =>
    obtain ⟨first, value⟩ := entry
    by_cases h : key = first
    · simp [h]
    · simp [List.lookup_cons, beq_false_of_ne h, ih, h]

theorem mem_keys_iff {table : Table κ ν} {key : κ} :
    key ∈ table.keys ↔ (table.get? key).isSome = true := by
  rw [isSome_get?, contains, List.contains_iff_mem]

theorem get?_eq_some_iff {table : Table κ ν} {key : κ} {value : ν} :
    table.get? key = some value ↔ (key, value) ∈ table.entries := by
  obtain ⟨entries, nodup⟩ := table
  simp only [get?]
  induction entries with
  | nil => simp
  | cons entry rest ih =>
    obtain ⟨first, kept⟩ := entry
    rw [List.map_cons, List.nodup_cons] at nodup
    by_cases same : key = first
    · subst same
      have absent : (key, value) ∉ rest := fun member =>
        nodup.1 (List.mem_map.2 ⟨_, member, rfl⟩)
      simp [absent, eq_comm]
    · simp [List.lookup_cons, beq_false_of_ne same, ih nodup.2, same]

theorem get?_of_perm {first second : Table κ ν} (same : first.entries.Perm second.entries)
    (key : κ) : first.get? key = second.get? key := by
  apply Option.ext
  intro value
  rw [get?_eq_some_iff, get?_eq_some_iff, same.mem_iff]

theorem mem_keys_put {table : Table κ ν} {key other : κ} {value : ν} :
    other ∈ (table.put key value).keys ↔ other = key ∨ other ∈ table.keys :=
  mem_keys_putEntry

theorem keys_putEntry (entries : List (κ × ν)) (key : κ) (value : ν) :
    (putEntry entries key value).map Prod.fst =
      if key ∈ entries.map Prod.fst then entries.map Prod.fst
      else entries.map Prod.fst ++ [key] := by
  induction entries with
  | nil => rfl
  | cons entry rest ih =>
    rw [putEntry]
    by_cases same : entry.1 = key
    · simp [same]
    · rw [if_neg same, List.map_cons, ih]
      by_cases known : key ∈ rest.map Prod.fst <;> simp [known, Ne.symm same]

theorem keys_put (table : Table κ ν) (key : κ) (value : ν) :
    (table.put key value).keys =
      if key ∈ table.keys then table.keys else table.keys ++ [key] :=
  keys_putEntry table.entries key value

theorem lookup_eq_none {entries : List (κ × ν)} {key : κ} (absent : key ∉ entries.map Prod.fst) :
    entries.lookup key = none := by
  rw [List.lookup_eq_none_iff]
  rintro entry member
  rw [bne_iff_ne]
  rintro rfl
  exact absent (List.mem_map_of_mem member)

theorem eq_of_lookup {entries others : List (κ × ν)} (nodup : (entries.map Prod.fst).Nodup)
    (keys : entries.map Prod.fst = others.map Prod.fst)
    (same : ∀ key, entries.lookup key = others.lookup key) : entries = others := by
  induction entries generalizing others with
  | nil => exact (List.map_eq_nil_iff.1 keys.symm).symm
  | cons entry rest ih =>
    cases others with
    | nil => cases keys
    | cons other more =>
      obtain ⟨key, value⟩ := entry
      obtain ⟨_, value'⟩ := other
      obtain ⟨rfl, tails⟩ := List.cons.inj keys
      rw [List.map_cons, List.nodup_cons] at nodup
      have absent : key ∉ more.map Prod.fst := tails ▸ nodup.1
      obtain rfl : value = value' := by simpa using same key
      congr 1
      apply ih nodup.2 tails
      intro found
      by_cases first : found = key
      · rw [first, lookup_eq_none nodup.1, lookup_eq_none absent]
      · simpa [List.lookup_cons, beq_false_of_ne first] using same found

theorem eq_of_get? {first second : Table κ ν} (keys : first.keys = second.keys)
    (same : ∀ key, first.get? key = second.get? key) : first = second := by
  obtain ⟨entries, nodup⟩ := first
  obtain ⟨others, distinct⟩ := second
  obtain rfl : entries = others := eq_of_lookup nodup keys same
  rfl

end Table

end FsmWorkbench
