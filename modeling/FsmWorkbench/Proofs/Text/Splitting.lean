import FsmWorkbench.Text.Blank
import Mathlib.Data.List.TakeWhile

set_option autoImplicit false

namespace FsmWorkbench.Text

theorem parts_ne_nil (cs : List Char) : parts cs ≠ [] := by
  fun_cases parts cs <;> simp

theorem parts_append_blank {c : Char} (blank : isBlank c = true) (front rest : List Char) :
    parts (front ++ c :: rest) = parts front ++ parts rest := by
  induction front with
  | nil => simp [parts, blank]
  | cons d front ih =>
    rw [List.cons_append, parts, ih, parts]
    cases first : parts front with
    | nil => exact absurd first (parts_ne_nil front)
    | cons part more => cases isBlank d <;> rfl

theorem words_append_blank {c : Char} (blank : isBlank c = true) (front rest : List Char) :
    words (front ++ c :: rest) = words front ++ words rest := by
  rw [words, parts_append_blank blank, List.filter_append, words, words]

theorem words_blank_append {blank : List Char} (blanks : ∀ c ∈ blank, isBlank c = true)
    (rest : List Char) : words (blank ++ rest) = words rest := by
  induction blank with
  | nil => rfl
  | cons c blank ih =>
    obtain ⟨first, others⟩ := List.forall_mem_cons.1 blanks
    exact (words_append_blank first [] (blank ++ rest)).trans (ih others)

theorem words_of_visible {word : List Char} (some : word ≠ [])
    (visible : ∀ c ∈ word, isBlank c = false) : words word = [word] := by
  have whole : parts word = [word] := by
    clear some
    induction word with
    | nil => rfl
    | cons c word ih =>
      obtain ⟨first, others⟩ := List.forall_mem_cons.1 visible
      rw [parts, ih others, first]
      rfl
  simp [words, whole, some]

theorem isBlank_of_words_eq_nil {cs : List Char} (none : words cs = []) :
    ∀ c ∈ cs, isBlank c = true := by
  induction cs with
  | nil => exact List.forall_mem_nil _
  | cons c cs ih =>
    rw [List.forall_mem_cons]
    cases blank : isBlank c with
    | true => exact ⟨rfl, ih ((words_append_blank blank [] cs).symm.trans none)⟩
    | false =>
      rw [words, parts, blank] at none
      cases first : parts cs with
      | nil => exact absurd first (parts_ne_nil cs)
      | cons part more => simp [first] at none

theorem head?_words_append {word tail : List Char} (some : word ≠ [])
    (visible : ∀ c ∈ word, isBlank c = false) (apart : ∀ c ∈ tail.head?, isBlank c = true) :
    (words (word ++ tail)).head? = .some word := by
  have whole : words word = [word] := words_of_visible some visible
  cases tail with
  | nil => rw [List.append_nil, whole, List.head?_cons]
  | cons c rest =>
    rw [words_append_blank (apart c rfl), whole]
    rfl

theorem exists_append_of_head?_words {line word : List Char}
    (visible : ∀ c ∈ line.head?, isBlank c = false) (first : (words line).head? = some word) :
    ∃ tail, line = word ++ tail ∧ ∀ c ∈ tail.head?, isBlank c = true := by
  let front := line.takeWhile fun c => !isBlank c
  let tail := line.dropWhile fun c => !isBlank c
  have whole : line = front ++ tail := List.takeWhile_append_dropWhile.symm
  have inside : ∀ c ∈ front, isBlank c = false := by
    intro c member
    simpa using List.mem_takeWhile_imp member
  have apart : ∀ c ∈ tail.head?, isBlank c = true := by
    intro c head
    have stopped := List.head?_dropWhile_not (fun c => !isBlank c) line
    rw [Option.mem_def.1 head] at stopped
    simpa using stopped
  have some : front ≠ [] := by
    cases line with
    | nil => cases first
    | cons c rest => simp [front, visible c rfl]
  rw [whole, head?_words_append some inside apart] at first
  obtain rfl := Option.some.inj first
  exact ⟨tail, whole, apart⟩

end FsmWorkbench.Text
