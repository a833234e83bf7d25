import FsmWorkbench.Proofs.Editor.Referring
import FsmWorkbench.Proofs.Text.Indexing
import Mathlib.Data.Set.List

set_option autoImplicit false

namespace FsmWorkbench

open Text

namespace Text

-- The last boundary of characters that is not behind an offset.
def floor : List Char → (offset : Nat) → Nat
  | [], _ => 0
  | c :: rest, offset =>
    if offset < c.utf8Size then 0 else c.utf8Size + floor rest (offset - c.utf8Size)

section Floor

variable {cs front rest : List Char} {offset a b : Nat}

theorem floor_append (reached : size front ≤ offset)
    (inside : ∀ c ∈ rest.head?, offset < size front + c.utf8Size) :
    floor (front ++ rest) offset = size front := by
  induction front generalizing offset with
  | nil =>
    cases rest with
    | nil => rfl
    | cons c rest =>
      have short : offset < c.utf8Size := by simpa using inside c rfl
      rw [List.nil_append, floor, if_pos short]
      rfl
  | cons c front ih =>
    rw [size_cons] at reached inside ⊢
    have still : ∀ d ∈ rest.head?, offset - c.utf8Size < size front + d.utf8Size := by
      intro d head
      have bound := inside d head
      omega
    rw [List.cons_append, floor, if_neg (by omega), ih (by omega) still]

theorem isGreatest_floor (cs : List Char) (offset : Nat) :
    IsGreatest {place | Boundary cs place ∧ place ≤ min offset (size cs)} (floor cs offset) := by
  obtain ⟨front, rest, rfl, reached, inside⟩ := exists_floor cs offset
  rw [floor_append reached inside]
  exact isGreatest_size reached inside

theorem positionOf_floor (cs : List Char) (offset : Nat) :
    positionOf cs (floor cs offset) = positionOf cs offset := by
  obtain ⟨front, rest, rfl, reached, inside⟩ := exists_floor cs offset
  rw [floor_append reached inside, positionOf_within reached inside]

theorem boundary_floor (cs : List Char) (offset : Nat) : Boundary cs (floor cs offset) :=
  (isGreatest_floor cs offset).1.1

theorem floor_le (cs : List Char) (offset : Nat) : floor cs offset ≤ offset :=
  (le_min_iff.1 (isGreatest_floor cs offset).1.2).1

theorem Boundary.le_size (boundary : Boundary cs offset) : offset ≤ size cs := by
  obtain ⟨front, rest, rfl, rfl⟩ := boundary
  rw [size_append]
  exact Nat.le_add_right ..

theorem Boundary.le_floor (boundary : Boundary cs a) (within : a ≤ b) : a ≤ floor cs b :=
  (isGreatest_floor cs b).2 ⟨boundary, le_min within boundary.le_size⟩

theorem Boundary.floor_eq (boundary : Boundary cs offset) : floor cs offset = offset :=
  Nat.le_antisymm (floor_le cs offset) (boundary.le_floor (Nat.le_refl _))

theorem floor_mono (cs : List Char) (within : a ≤ b) : floor cs a ≤ floor cs b :=
  (boundary_floor cs a).le_floor ((floor_le cs a).trans within)

theorem floor_lt_floor_iff :
    floor cs a < floor cs b ↔ ∃ boundary, Boundary cs boundary ∧ a < boundary ∧ boundary ≤ b := by
  constructor
  · intro below
    refine ⟨floor cs b, boundary_floor cs b, Nat.lt_of_not_le fun within => ?_, floor_le cs b⟩
    have reached := (boundary_floor cs b).le_floor within
    omega
  · rintro ⟨boundary, between, behind, within⟩
    have low := floor_le cs a
    have high := between.le_floor within
    omega

end Floor

section Order

variable {cs front more : List Char} {a b : Nat}

theorem precedes_ofNat {line column line' column' : Nat} (down : line' < UInt32.size)
    (across : column' < UInt32.size) (before : line < line' ∨ line = line' ∧ column < column') :
    Position.Precedes ⟨UInt32.ofNat line, UInt32.ofNat column⟩
      ⟨UInt32.ofNat line', UInt32.ofNat column'⟩ := by
  rcases before with lower | ⟨rfl, left⟩
  · left
    rw [UInt32.lt_iff_toNat_lt, UInt32.toNat_ofNat_of_lt' down,
      UInt32.toNat_ofNat_of_lt' (lower.trans down)]
    exact lower
  · right
    refine ⟨rfl, ?_⟩
    rw [UInt32.lt_iff_toNat_lt, UInt32.toNat_ofNat_of_lt' across,
      UInt32.toNat_ofNat_of_lt' (left.trans across)]
    exact left

theorem precedes_append (rest : List Char) (some : more ≠ []) (told : Told (front ++ more)) :
    (positionOf (front ++ (more ++ rest)) (size front)).Precedes
      (positionOf (front ++ (more ++ rest)) (size (front ++ more))) := by
  rw [positionOf_size, ← List.append_assoc, positionOf_size]
  refine precedes_ofNat told.1 told.2 ?_
  by_cases feed : '\n' ∈ more
  · left
    rw [List.count_append]
    exact Nat.lt_add_of_pos_right (List.count_pos_iff.2 feed)
  · right
    have wide : 0 < breadth more :=
      (List.length_pos_of_ne_nil some).trans_le (length_le_breadth more)
    rw [count_eq_count_append front feed, lastLine_append_of_not_mem feed, breadth_append]
    exact ⟨rfl, Nat.lt_add_of_pos_right wide⟩

theorem Boundary.precedes (first : Boundary cs a) (second : Boundary cs b) (below : a < b)
    (small : size cs < UInt32.size) : (positionOf cs a).Precedes (positionOf cs b) := by
  obtain ⟨front, rest, rfl, rfl⟩ := first
  obtain ⟨longer, tail, same, rfl⟩ := second
  obtain ⟨more, rfl, rfl⟩ := exists_append_of_size_le same (Nat.le_of_lt below)
  have some : more ≠ [] := by
    rintro rfl
    simp at below
  rw [← List.append_assoc, size_append] at small
  exact precedes_append tail some (told_of_size (by omega))

variable (small : size cs < UInt32.size)
include small

theorem precedes_positionOf_iff :
    (positionOf cs a).Precedes (positionOf cs b) ↔ floor cs a < floor cs b := by
  have onward {a b : Nat} (below : floor cs a < floor cs b) :
      (positionOf cs a).Precedes (positionOf cs b) := by
    rw [← positionOf_floor cs a, ← positionOf_floor cs b]
    exact (boundary_floor cs a).precedes (boundary_floor cs b) below small
  refine ⟨fun before => Nat.lt_of_not_le fun within => ?_, onward⟩
  rcases Nat.lt_or_eq_of_le within with below | same
  · exact Position.Precedes.irrefl (before.trans (onward below))
  · rw [← positionOf_floor cs a, ← positionOf_floor cs b, same] at before
    exact Position.Precedes.irrefl before

theorem positionOf_eq_iff : positionOf cs a = positionOf cs b ↔ floor cs a = floor cs b := by
  constructor
  · intro same
    refine Nat.le_antisymm (Nat.le_of_not_lt fun above => ?_) (Nat.le_of_not_lt fun below => ?_)
    · have before := (precedes_positionOf_iff small).2 above
      exact Position.Precedes.irrefl (same ▸ before)
    · have before := (precedes_positionOf_iff small).2 below
      exact Position.Precedes.irrefl (same ▸ before)
  · intro same
    rw [← positionOf_floor cs a, same, positionOf_floor]

theorem le_positionOf_iff :
    (positionOf cs a).le (positionOf cs b) = true ↔ floor cs a ≤ floor cs b := by
  rw [Position.le_iff, positionOf_eq_iff small, precedes_positionOf_iff small]
  omega

end Order

end Text

namespace Span

def le (a b : Span) : Bool :=
  a.start < b.start || (a.start == b.start && a.stop ≤ b.stop)

theorem le_iff {a b : Span} :
    a.le b = true ↔ a.start < b.start ∨ a.start = b.start ∧ a.stop ≤ b.stop := by
  simp [le]

-- The span with its ends taken back to boundaries of characters.
def floor (cs : List Char) (span : Span) : Span :=
  ⟨Text.floor cs span.start, Text.floor cs span.stop⟩

def Bounded (cs : List Char) (span : Span) : Prop :=
  Boundary cs span.start ∧ Boundary cs span.stop

instance (cs : List Char) (span : Span) : Decidable (span.Bounded cs) :=
  inferInstanceAs (Decidable (_ ∧ _))

theorem Bounded.floor_eq {cs : List Char} {span : Span} (bounded : span.Bounded cs) :
    span.floor cs = span := by
  rw [floor, bounded.1.floor_eq, bounded.2.floor_eq]

end Span

theorem le_extentOf {cs : List Char} (small : size cs < UInt32.size) (a b : Span) :
    (extentOf cs a).le (extentOf cs b) = (a.floor cs).le (b.floor cs) := by
  rw [Bool.eq_iff_iff, Extent.le_iff, Span.le_iff]
  simp only [Extent.Precedes, extentOf_ofText, Extent.mk.injEq, positionOf_eq_iff small,
    precedes_positionOf_iff small, Span.floor]
  omega

theorem Name.StandsIn.bounded {name : Name} {cs : List Char} (stands : name.StandsIn 0 cs) :
    name.span.Bounded cs := by
  obtain ⟨-, front, rest, rfl, span⟩ := stands
  rw [Nat.zero_add, ← size_append] at span
  rw [span]
  exact ⟨⟨front, _, rfl, rfl⟩, front ++ name.text.toList, rest, (List.append_assoc ..).symm, rfl⟩

theorem Model.exists_names_referencesAt {text : String} {model : Model}
    (parsed : Model.parse text = .ok model) (small : size text.toList < UInt32.size)
    (position : Position) (declaration : Bool) :
    ∃ names : List Name, names.Pairwise (fun a b => a.span.start < b.span.start) ∧
      model.referencesAt text.toList position declaration =
        names.map fun name => extentOf text.toList name.span := by
  cases here : model.symbolAtPosition? text.toList position with
  | none => exact ⟨[], .nil, by rw [referencesAt, here]; rfl⟩
  | some occurrence =>
    let extent (name : {name // name ∈ model.names.map Occurrence.name}) :=
      extentOf text.toList name.1.span
    obtain ⟨listed, same⟩ : ∃ listed : List _, listed.map extent =
        model.referencesAt text.toList position declaration := by
      rw [← Set.mem_range, Set.range_list_map]
      intro found member
      obtain ⟨name, lists, rfl⟩ := (mem_referencesAt_iff parsed here).1 member
      exact ⟨⟨name, lists.mem_names⟩, rfl⟩
    have sorted := pairwise_referencesAt here declaration
    rw [← same, List.pairwise_map] at sorted
    refine ⟨listed.map Subtype.val, ?_, by rw [← same, List.map_map]; rfl⟩
    rw [List.pairwise_map]
    refine sorted.imp fun {a b} precedes => ?_
    rcases precedes with before | ⟨start, stops⟩
    · simp only [extent, extentOf_ofText] at before
      have below := (precedes_positionOf_iff small).1 before
      rwa [(standsIn_of_parse parsed a.2).bounded.1.floor_eq,
        (standsIn_of_parse parsed b.2).bounded.1.floor_eq] at below
    · have legible := legible_of_parse parsed small
      obtain rfl : a = b := Subtype.ext (eq_of_start_eq parsed legible a.2 b.2 start)
      exact absurd stops Position.Precedes.irrefl

theorem ordering_exact {text : String} (small : size text.toList < UInt32.size) :
    let cs := text.toList
    let place := positionOf cs
    (∀ offset, (LineIndex.ofText cs).position? offset = some (place offset)) ∧
      (∀ a b, a ≤ b → (place a).le (place b) = true) ∧
      (∀ a b, Boundary cs a → Boundary cs b → a < b → (place a).Precedes (place b)) ∧
      (∀ a b, (place a).Precedes (place b) ↔
        ∃ boundary, Boundary cs boundary ∧ a < boundary ∧ boundary ≤ b) ∧
      (∀ span : Span, span.start ≤ span.stop →
        (extentOf cs span).start.le (extentOf cs span).stop = true) ∧
      (∀ spans : List Span,
        ((∀ span ∈ spans, span.Bounded cs) →
          (spans.map (extentOf cs)).mergeSort Extent.le =
            (spans.mergeSort Span.le).map (extentOf cs)) ∧
        (spans.map (extentOf cs)).mergeSort Extent.le =
          (spans.mergeSort fun a b => (a.floor cs).le (b.floor cs)).map (extentOf cs)) ∧
      ∀ model, Model.parse text = .ok model → ∀ position declaration,
        ∃ names : List Name, names.Pairwise (fun a b => a.span.start < b.span.start) ∧
          model.referencesAt cs position declaration =
            names.map fun name => extentOf cs name.span := by
  intro cs place
  have ordered (a b : Nat) (within : a ≤ b) : (place a).le (place b) = true :=
    (le_positionOf_iff small).2 (floor_mono cs within)
  refine ⟨LineIndex.position?_ofText cs, ordered, ?_, ?_, ?_,
    fun spans => ⟨fun bounded => ?_, ?_⟩, ?_⟩
  · exact fun a b first second below => first.precedes second below small
  · exact fun a b => (precedes_positionOf_iff small).trans floor_lt_floor_iff
  · intro span within
    rw [extentOf_ofText]
    exact ordered span.start span.stop within
  · refine (List.map_mergeSort fun a first b second => ?_).symm
    rw [le_extentOf small, (bounded a first).floor_eq, (bounded b second).floor_eq]
  · exact (List.map_mergeSort fun a _ b _ => (le_extentOf small a b).symm).symm
  · exact fun model parsed => Model.exists_names_referencesAt parsed small

theorem ordering_exact_door :
    let cs := "é\n🚪x".toList
    size cs < UInt32.size ∧ (positionOf cs 2).Precedes (positionOf cs 3) ∧
      ¬(positionOf cs 3).Precedes (positionOf cs 6) ∧
      [⟨⟨1, 2⟩, ⟨1, 3⟩⟩, ⟨⟨0, 0⟩, ⟨0, 1⟩⟩, ⟨⟨1, 0⟩, ⟨1, 2⟩⟩].mergeSort Extent.le =
        [⟨⟨0, 0⟩, ⟨0, 1⟩⟩, ⟨⟨1, 0⟩, ⟨1, 2⟩⟩, ⟨⟨1, 2⟩, ⟨1, 3⟩⟩] := by
  intro cs
  have small : size cs < UInt32.size := by decide +kernel
  obtain ⟨-, -, strict, between, -, sorted, -⟩ := ordering_exact small
  have bounded : ∀ span ∈ [(⟨7, 8⟩ : Span), ⟨0, 2⟩, ⟨3, 7⟩], span.Bounded cs := by
    decide +kernel
  have offsets : [⟨7, 8⟩, ⟨0, 2⟩, ⟨3, 7⟩].mergeSort Span.le = [⟨0, 2⟩, ⟨3, 7⟩, ⟨7, 8⟩] := by cbv
  have extents := (sorted [⟨7, 8⟩, ⟨0, 2⟩, ⟨3, 7⟩]).1 bounded
  rw [offsets] at extents
  refine ⟨small, strict 2 3 (by decide +kernel) (by decide +kernel) (by decide), ?_, extents⟩
  rw [between]
  rintro ⟨boundary, bounds, behind, within⟩
  have inside : boundary = 4 ∨ boundary = 5 ∨ boundary = 6 := by omega
  rcases inside with rfl | rfl | rfl <;> exact absurd bounds (by decide +kernel)

end FsmWorkbench
