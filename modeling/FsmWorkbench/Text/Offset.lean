set_option autoImplicit false

namespace FsmWorkbench.Text

def size : List Char → Nat
  | [] => 0
  | c :: rest => c.utf8Size + size rest

@[simp] theorem size_nil : size [] = 0 := rfl

@[simp] theorem size_cons (c : Char) (rest : List Char) :
    size (c :: rest) = c.utf8Size + size rest := rfl

@[simp] theorem size_append (cs ds : List Char) : size (cs ++ ds) = size cs + size ds := by
  induction cs with
  | nil => simp
  | cons c rest ih => simp [ih, Nat.add_assoc]

def cut? : List Char → Nat → Option (List Char × List Char)
  | cs, 0 => some ([], cs)
  | [], _ + 1 => none
  | c :: rest, offset + 1 =>
    if c.utf8Size ≤ offset + 1 then
      (cut? rest (offset + 1 - c.utf8Size)).map fun (before, after) => (c :: before, after)
    else none

theorem cut?_eq_some {cs before after : List Char} {offset : Nat}
    (h : cut? cs offset = some (before, after)) : cs = before ++ after ∧ size before = offset := by
  fun_induction cut? cs offset generalizing before after with
  | case1 => simp_all
  | case2 => simp at h
  | case3 c rest offset fits ih =>
    obtain ⟨⟨left, right⟩, found, same⟩ := Option.map_eq_some_iff.1 h
    obtain ⟨rfl, rfl⟩ := Prod.mk.inj same
    obtain ⟨rfl, sized⟩ := ih found
    exact ⟨rfl, by rw [size_cons, sized]; omega⟩
  | case4 => simp at h

theorem cut?_append (before after : List Char) :
    cut? (before ++ after) (size before) = some (before, after) := by
  induction before with
  | nil => simp [cut?]
  | cons c rest ih =>
    have positive := c.utf8Size_pos
    obtain ⟨n, hn⟩ : ∃ n, c.utf8Size + size rest = n + 1 := ⟨c.utf8Size + size rest - 1, by omega⟩
    rw [List.cons_append, size_cons, hn, cut?, if_pos (by omega),
      show n + 1 - c.utf8Size = size rest by omega, ih]
    rfl

def Boundary (cs : List Char) (offset : Nat) : Prop :=
  ∃ front rest, cs = front ++ rest ∧ size front = offset

theorem boundary_iff {cs : List Char} {offset : Nat} :
    Boundary cs offset ↔ (cut? cs offset).isSome = true := by
  constructor
  · rintro ⟨front, rest, rfl, rfl⟩
    rw [cut?_append]
    rfl
  · intro cuts
    obtain ⟨⟨front, rest⟩, found⟩ := Option.isSome_iff_exists.1 cuts
    obtain ⟨same, sized⟩ := cut?_eq_some found
    exact ⟨front, rest, same, sized⟩

instance (cs : List Char) (offset : Nat) : Decidable (Boundary cs offset) :=
  decidable_of_iff' _ boundary_iff

end FsmWorkbench.Text
