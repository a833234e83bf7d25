import FsmWorkbench.Proofs.Editor.Suggesting
import FsmWorkbench.Proofs.Text.Resolving

set_option autoImplicit false

namespace FsmWorkbench

open Text

/-- The words of a line that are finished, and the one at its end that is still being typed. -/
structure Typing (line settled word : List Char) : Prop where
  whole : line = settled ++ word
  apart : ∀ c ∈ settled.getLast?, isBlank c = true
  visible : ∀ c ∈ word, isBlank c = false

theorem exists_typing (line : List Char) : ∃ settled word, Typing line settled word := by
  let typed : Char → Bool := fun c => !isBlank c
  refine ⟨line.rdropWhile typed, line.rtakeWhile typed, ?_, fun c ends => ?_, fun c member => ?_⟩
  · exact (List.rdropWhile_append_rtakeWhile ..).symm
  · obtain ⟨front, same⟩ := List.getLast?_eq_some_iff.1 ends
    have some : line.rdropWhile typed ≠ [] := by simp [same]
    have stopped := List.rdropWhile_last_not typed line some
    simpa [same, typed] using stopped
  · simpa [typed] using List.mem_rtakeWhile_imp member

namespace Typing

variable {line settled word : List Char} {model : Option Model}

theorem finishedWords_eq (typing : Typing line settled word) :
    finishedWords line = finishedWords settled := by
  obtain ⟨rfl, apart, visible⟩ := typing
  have unfinished : finishedWords word = [] := finishedWords_of_visible visible
  rcases List.eq_nil_or_concat settled with rfl | ⟨front, last, rfl⟩
  · exact unfinished
  · have blank : isBlank last = true := apart last (by simp)
    have empty : finishedWords [] = [] := rfl
    rw [List.concat_eq_append, List.append_assoc, List.singleton_append,
      finishedWords_append_blank blank, finishedWords_append_blank blank, unfinished, empty]

theorem suggestions_eq (typing : Typing line settled word) (plain : ¬['/', '/'] <:+: line) :
    suggestions line model = suggestions settled model := by
  have before : ¬['/', '/'] <:+: settled := by
    intro slashes
    rw [typing.whole] at plain
    exact plain (slashes.trans (List.prefix_append settled word).isInfix)
  rw [suggestions, suggestions, if_neg (mt hasComment_iff.1 plain),
    if_neg (mt hasComment_iff.1 before), typing.finishedWords_eq]

end Typing

theorem Typing.exists_start {text : String} {offset : Nat} {before after settled word : List Char}
    (boundary : cut? text.toList offset = some (before, after))
    (typing : Typing (lastLine before) settled word) :
    ∃ front start, cut? text.toList start = some (front, word ++ after) ∧
      lastLine front = settled ∧ offset = start + size word := by
  obtain ⟨whole, rfl⟩ := cut?_eq_some boundary
  obtain ⟨above, split, ended⟩ := exists_append_lastLine before
  rw [typing.whole, ← List.append_assoc] at split
  have inside : '\n' ∉ settled := by
    intro feed
    have member := List.mem_append_left word feed
    rw [← typing.whole] at member
    exact newline_not_mem_lastLine before member
  refine ⟨above ++ settled, size (above ++ settled), ?_, lastLine_append ended inside, ?_⟩
  · rw [whole, split, List.append_assoc, cut?_append]
  · rw [← size_append, ← split]

theorem complete_of_boundary {text : String} {offset : Nat} {before after : List Char}
    (boundary : cut? text.toList offset = some (before, after)) (model : Option Model) :
    complete text offset model = suggestions (lastLine before) model := by
  obtain ⟨split, rfl⟩ := cut?_eq_some boundary
  exact complete_append split

theorem typing_exact {text : String} {offset : Nat} {before after : List Char}
    (boundary : cut? text.toList offset = some (before, after)) (model : Option Model) :
    (∃ settled word, Typing (lastLine before) settled word) ∧
      ∀ settled word, Typing (lastLine before) settled word →
        ∃ front start, cut? text.toList start = some (front, word ++ after) ∧
          lastLine front = settled ∧ offset = start + size word ∧
          (['/', '/'] <:+: settled ++ word → complete text offset model = []) ∧
          (¬['/', '/'] <:+: settled ++ word →
            complete text offset model = complete text start model ∧
              ∀ (other : String) place typed rest another,
                cut? other.toList place = some (typed, rest) →
                Typing (lastLine typed) settled another → ¬['/', '/'] <:+: settled ++ another →
                complete other place model = complete text start model) := by
  refine ⟨exists_typing _, fun settled word typing => ?_⟩
  obtain ⟨front, start, behind, line, place⟩ := typing.exists_start boundary
  have offered : complete text start model = suggestions settled model := by
    rw [complete_of_boundary behind, line]
  refine ⟨front, start, behind, line, place, fun slashes => ?_, fun plain => ⟨?_, ?_⟩⟩
  · rw [← typing.whole] at slashes
    rw [complete_of_boundary boundary, suggestions_of_slashes slashes]
  · rw [← typing.whole] at plain
    rw [complete_of_boundary boundary, offered, typing.suggestions_eq plain]
  · intro other place typed rest another elsewhere again plain
    rw [← again.whole] at plain
    rw [complete_of_boundary elsewhere, offered, again.suggestions_eq plain]

theorem typing_exact_behind_name :
    let text := "transition t fro"
    let other := "state A\ntransition t это"
    complete text 16 none = [CompletionItem.ofKeyword .source] ∧
      complete text 13 none = complete text 16 none ∧
      complete other 27 none = complete text 16 none := by
  intro text other
  have boundary : cut? text.toList 16 = some (text.toList, []) := by decide +kernel
  have elsewhere : cut? other.toList 27 = some (other.toList, []) := by decide +kernel
  have behind {line word : List Char} (whole : line = "transition t ".toList ++ word)
      (visible : (word.all fun c => !isBlank c) = true) :
      Typing line "transition t ".toList word := by
    have last : "transition t ".toList.getLast? = some ' ' := by decide +kernel
    refine ⟨whole, fun c ends => ?_, fun c member => ?_⟩
    · obtain rfl := Option.some.inj (last.symm.trans ends)
      decide
    · simpa using List.all_eq_true.1 visible c member
  have typing : Typing (lastLine text.toList) "transition t ".toList "fro".toList :=
    behind (by decide +kernel) (by decide +kernel)
  have again : Typing (lastLine other.toList) "transition t ".toList "это".toList :=
    behind (by decide +kernel) (by decide +kernel)
  obtain ⟨-, each⟩ := typing_exact boundary none
  obtain ⟨front, start, -, -, place, -, unchanged⟩ := each _ _ typing
  obtain rfl : start = 13 := by
    have sized : size "fro".toList = 3 := by decide +kernel
    omega
  obtain ⟨same, others⟩ := unchanged (mt hasComment_iff.2 (by decide +kernel))
  have shown := others other 27 _ _ _ elsewhere again (mt hasComment_iff.2 (by decide +kernel))
  refine ⟨?_, same.symm, shown.trans same.symm⟩
  have context : CompletionContext.ofWords? (finishedWords (lastLine text.toList)) =
      some (.keyword .source) := by decide +kernel
  rw [complete_of_boundary boundary, suggestions_of_context
    (mt hasComment_iff.2 (by decide +kernel)) context, CompletionContext.offered_keyword]

end FsmWorkbench
