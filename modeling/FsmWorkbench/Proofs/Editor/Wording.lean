import FsmWorkbench.Editor.Completion
import FsmWorkbench.Proofs.Layout.Rows
import FsmWorkbench.Proofs.Text.Splitting

set_option autoImplicit false

namespace FsmWorkbench

open Text

theorem isBlank_of_isSeparator {c : Char} (separates : isSeparator c = true) :
    isBlank c = true := by
  simp only [isSeparator, Bool.or_eq_true, beq_iff_eq] at separates
  rcases separates with ((rfl | rfl) | rfl) | rfl <;> decide

theorem finishedWords_of_visible {line : List Char} (visible : ∀ c ∈ line, isBlank c = false) :
    finishedWords line = [] := by
  by_cases none : line = []
  · rw [none]
    rfl
  · have last := visible _ (List.getLast_mem none)
    rw [finishedWords, words_of_visible none visible, List.getLast?_eq_some_getLast none]
    simp [last]

theorem finishedWords_append_blank {c : Char} (blank : isBlank c = true) (front rest : List Char) :
    finishedWords (front ++ c :: rest) =
      (words front).map String.ofList ++ finishedWords rest := by
  simp only [finishedWords, words_append_blank blank, List.map_append]
  by_cases none : rest = []
  · subst none
    simp [blank, words, parts]
  · have last : (front ++ c :: rest).getLast? = rest.getLast? := by
      rw [List.getLast?_append, List.getLast?_cons, List.getLast?_eq_some_getLast none]
      rfl
    rw [last]
    split
    · next typing =>
      have some : (words rest).map String.ofList ≠ [] := by
        intro empty
        have blanks := isBlank_of_words_eq_nil (List.map_eq_nil_iff.1 empty)
        simp [List.getLast?_eq_some_getLast none, blanks _ (List.getLast_mem none)] at typing
      rw [List.dropLast_append_of_ne_nil some]
    · rfl

theorem finishedWords_blank_append {blank : List Char} (blanks : ∀ c ∈ blank, isBlank c = true)
    (rest : List Char) : finishedWords (blank ++ rest) = finishedWords rest := by
  induction blank with
  | nil => rfl
  | cons c blank ih =>
    obtain ⟨first, others⟩ := List.forall_mem_cons.1 blanks
    exact (finishedWords_append_blank first [] (blank ++ rest)).trans (ih others)

theorem finishedWords_of_blank {line : List Char} (blanks : ∀ c ∈ line, isBlank c = true) :
    finishedWords line = [] := by
  have none := finishedWords_blank_append blanks []
  rwa [List.append_nil] at none

theorem finishedWords_word {word : List Char} (some : word ≠ [])
    (visible : ∀ c ∈ word, isBlank c = false) {c : Char} (blank : isBlank c = true)
    (rest : List Char) :
    finishedWords (word ++ c :: rest) = String.ofList word :: finishedWords rest := by
  rw [finishedWords_append_blank blank, words_of_visible some visible]
  rfl

theorem exists_toList_of_finishedWords {c : Char} {line : List Char} {word : String}
    {more : List String} (visible : isBlank c = false)
    (finished : finishedWords (c :: line) = word :: more) : ∃ tail, word.toList = c :: tail := by
  have first : (line.takeWhile fun d => !isBlank d).all fun d => !isBlank d := List.all_takeWhile
  have whole := List.takeWhile_append_dropWhile (p := fun d => !isBlank d) (l := line)
  have inside : ∀ d ∈ c :: line.takeWhile fun d => !isBlank d, isBlank d = false := by
    refine List.forall_mem_cons.2 ⟨visible, fun d member => ?_⟩
    simpa using List.all_eq_true.1 first d member
  cases rest : line.dropWhile fun d => !isBlank d with
  | nil =>
    rw [rest, List.append_nil] at whole
    rw [whole] at inside
    rw [finishedWords_of_visible inside] at finished
    cases finished
  | cons d rest =>
    have blank : isBlank d = true := by
      have stopped := @eq_false_of_mem_head?_dropWhile (fun d => !isBlank d) line d (by simp [rest])
      simpa using stopped
    rw [← whole, rest, ← List.cons_append,
      finishedWords_word (List.cons_ne_nil _ _) inside blank] at finished
    obtain ⟨rfl, -⟩ := List.cons.inj finished
    exact ⟨_, String.toList_ofList⟩

theorem hasComment_iff {cs : List Char} : hasComment cs = true ↔ ['/', '/'] <:+: cs := by
  induction cs with
  | nil => simp [hasComment]
  | cons c rest ih =>
    rw [hasComment, Bool.or_eq_true, ih, List.infix_cons_iff]
    refine or_congr ?_ Iff.rfl
    cases rest with
    | nil => simp
    | cons d rest => simp [List.cons_prefix_cons, @eq_comm _ '/']

end FsmWorkbench
