set_option autoImplicit false

namespace FsmWorkbench

-- The entries from the one used last to the one unused longest, at most `capacity` of them.
structure RecentCache (κ ν : Type) where
  capacity : Nat
  entries : List (κ × ν)

namespace RecentCache

variable {κ ν : Type} [DecidableEq κ]

def empty (capacity : Nat) : RecentCache κ ν := ⟨capacity, []⟩

def use? (cache : RecentCache κ ν) (key : κ) : Option (ν × RecentCache κ ν) :=
  (cache.entries.lookup key).map fun value =>
    (value, { cache with
      entries := (key, value) :: cache.entries.filter fun entry => !decide (entry.1 = key) })

def put (cache : RecentCache κ ν) (key : κ) (value : ν) : RecentCache κ ν :=
  { cache with
    entries :=
      ((key, value) :: cache.entries.filter fun entry => !decide (entry.1 = key)).take
        cache.capacity }

def Holds (cache : RecentCache κ ν) (p : κ → ν → Prop) : Prop :=
  ∀ entry ∈ cache.entries, p entry.1 entry.2

omit [DecidableEq κ] in
theorem holds_empty (capacity : Nat) (p : κ → ν → Prop) :
    (empty capacity : RecentCache κ ν).Holds p := by
  simp [Holds, empty]

theorem holds_put {cache : RecentCache κ ν} {p : κ → ν → Prop} (holds : cache.Holds p) {key : κ}
    {value : ν} (fresh : p key value) : (cache.put key value).Holds p := by
  intro entry member
  rcases List.mem_cons.1 (List.mem_of_mem_take member) with rfl | old
  · exact fresh
  · exact holds entry (List.mem_filter.1 old).1

theorem holds_use? {cache after : RecentCache κ ν} {p : κ → ν → Prop} (holds : cache.Holds p)
    {key : κ} {value : ν} (h : cache.use? key = some (value, after)) :
    p key value ∧ after.Holds p := by
  obtain ⟨found, hit, same⟩ := Option.map_eq_some_iff.1 h
  obtain ⟨rfl, rfl⟩ := Prod.mk.inj same
  have fresh : p key found := by
    obtain ⟨before, rest, split, _⟩ := List.lookup_eq_some_iff.1 hit
    exact holds (key, found) (by simp [split])
  refine ⟨fresh, fun entry member => ?_⟩
  rcases List.mem_cons.1 member with rfl | old
  · exact fresh
  · exact holds entry (List.mem_filter.1 old).1

end RecentCache

end FsmWorkbench
