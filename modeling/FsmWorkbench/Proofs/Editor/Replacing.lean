import FsmWorkbench.Editor.Edit
import FsmWorkbench.Proofs.Layout.Stability
import FsmWorkbench.Proofs.Text.Resolving

set_option autoImplicit false

namespace FsmWorkbench

open Text

namespace Text

theorem ended_iff {cs : List Char} : Ended cs ↔ cs = [] ∨ cs.getLast? = some '\n' := by
  rw [Ended, List.getLast?_eq_some_iff]

theorem ended_cons_iff {c : Char} {rest : List Char} :
    Ended (c :: rest) ↔ rest = [] ∧ c = '\n' ∨ rest ≠ [] ∧ Ended rest := by
  cases last : rest.getLast? with
  | none => simp_all [ended_iff]
  | some d =>
    have some : rest ≠ [] := by
      intro none
      simp [none] at last
    simp [ended_iff, List.getLast?_cons, last, some]

theorem lines_cons {c : Char} {rest line : List Char} {more : List (List Char)} (feed : c ≠ '\n')
    (alone : c = '\r' → rest.head? ≠ some '\n') (split : lines rest = line :: more) :
    lines (c :: rest) = (c :: line) :: more := by
  rw [lines.eq_def]
  split <;> simp_all

theorem ended_of_cons {c : Char} {rest : List Char} (some : rest ≠ []) (ended : Ended (c :: rest)) :
    Ended rest := by
  simpa [some] using ended_cons_iff.1 ended

theorem lines_append {front : List Char} (ended : Ended front) (rest : List Char) :
    lines (front ++ rest) = lines front ++ lines rest := by
  fun_induction lines front with
  | case1 => rfl
  | case2 front ih =>
    cases ended_cons_iff.1 ended with
    | inl last => simp [last.1, lines]
    | inr later => simp [lines, ih later.2]
  | case3 front ih =>
    cases ended_cons_iff.1 (ended_of_cons (by simp) ended) with
    | inl last => simp [last.1, lines]
    | inr later => simp [lines, ih later.2]
  | case4 c front feed alone none ih =>
    have empty := lines_eq_nil_iff.1 none
    have last := ended_cons_iff.1 ended
    simp_all
  | case5 c front feed alone line more split ih =>
    have some : front ≠ [] := by
      intro none
      simp [none, lines] at split
    have whole := ih (ended_of_cons some ended)
    rw [split] at whole
    refine lines_cons (by simpa using feed) (fun carriage head => ?_) whole
    cases front with
    | nil => exact some rfl
    | cons d front =>
      obtain rfl := Option.some.inj head
      exact alone front carriage rfl

theorem length_lines {cs : List Char} (ended : Ended cs) :
    (lines cs).length = cs.count '\n' := by
  fun_induction lines cs with
  | case1 => rfl
  | case2 rest ih =>
    cases ended_cons_iff.1 ended with
    | inl last => simp [last.1, lines]
    | inr later => simp [ih later.2]
  | case3 rest ih =>
    cases ended_cons_iff.1 (ended_of_cons (by simp) ended) with
    | inl last => simp [last.1, lines]
    | inr later => simp [ih later.2]
  | case4 c rest feed alone none ih =>
    have empty := lines_eq_nil_iff.1 none
    have last := ended_cons_iff.1 ended
    simp_all
  | case5 c rest feed alone line more split ih =>
    have some : rest ≠ [] := by
      intro none
      simp [none, lines] at split
    have counted := ih (ended_of_cons some ended)
    rw [split] at counted
    rw [List.count_cons_of_ne feed, ← counted, List.length_cons, List.length_cons]

theorem lines_of_not_mem {c : Char} {last : List Char} (inside : '\n' ∉ c :: last) :
    lines (c :: last) = [c :: last] := by
  induction last generalizing c with
  | nil =>
    rw [lines.eq_def]
    split <;> simp_all [lines]
  | cons d last ih =>
    simp only [List.mem_cons, not_or] at inside
    refine lines_cons (Ne.symm inside.1) (fun _ head => ?_) (ih (by simp [inside.2]))
    exact inside.2.1 (Option.some.inj head).symm

theorem endPosition_eq (cs : List Char) :
    endPosition cs = ⟨UInt32.ofNat (cs.count '\n'), UInt32.ofNat (size (lastLine cs))⟩ := by
  obtain ⟨front, same, ended⟩ := exists_append_lastLine cs
  have inside := newline_not_mem_lastLine cs
  generalize lastLine cs = last at same inside
  subst same
  rw [count_eq_count_append front inside, endPosition]
  cases last with
  | nil =>
    rw [List.append_nil, length_lines ended]
    cases ended_iff.1 ended with
    | inl none => simp [none, lines]
    | inr feed => simp [feed]
  | cons c last =>
    have outside : (front ++ c :: last).getLast? ≠ some '\n' := by
      rw [List.getLast?_append_of_ne_nil _ (by simp)]
      intro feed
      exact inside (List.mem_of_getLast? feed)
    rw [if_neg outside, lines_append ended, lines_of_not_mem inside]
    simp [length_lines ended]

-- The end of a text as it is told for an edit leads to the end of the text.
def EndTold (cs : List Char) : Prop :=
  cs.count '\n' < UInt32.size ∧ size (lastLine cs) % UInt32.size = breadth (lastLine cs)

theorem offsetOf?_endPosition_iff (cs : List Char) :
    offsetOf? cs (endPosition cs) = some (size cs) ↔ EndTold cs := by
  have ends := offsetOf?_ofNat_iff cs [] (size (lastLine cs))
  rwa [List.append_nil, ← endPosition_eq] at ends

theorem endTold_iff {cs : List Char} (small : size cs < UInt32.size) :
    EndTold cs ↔ ∀ c ∈ lastLine cs, c.toNat < 0x80 := by
  have lines := count_add_breadth_le_size cs
  have last := size_lastLine_le cs
  rw [EndTold, Nat.mod_eq_of_lt (by omega), size_eq_breadth_iff]
  exact and_iff_right (by omega)

end Text

def TextEdit.result? (edit : TextEdit) (text : String) : Option String :=
  (offsetOf? text.toList edit.extent.start).bind fun start =>
    (offsetOf? text.toList edit.extent.stop).bind fun stop =>
      (cut? text.toList start).bind fun head =>
        (cut? text.toList stop).map fun tail =>
          String.ofList (head.1 ++ edit.newText.toList ++ tail.2)

theorem result?_whole_iff (text newText : String) (stop : Position) :
    TextEdit.result? ⟨⟨⟨0, 0⟩, stop⟩, newText⟩ text = some newText ↔
      offsetOf? text.toList stop = some (size text.toList) := by
  have opened : cut? text.toList 0 = some ([], text.toList) := cut?_append [] text.toList
  have closed : cut? text.toList (size text.toList) = some (text.toList, []) := by
    simpa using cut?_append text.toList []
  rw [TextEdit.result?, offsetOf?_zero, Option.bind_some]
  constructor
  · intro applied
    obtain ⟨offset, found, cuts⟩ := Option.bind_eq_some_iff.1 applied
    rw [opened, Option.bind_some] at cuts
    obtain ⟨tail, cut, same⟩ := Option.map_eq_some_iff.1 cuts
    have none : tail.2 = [] := by
      have letters := congrArg String.toList same
      simpa using letters
    obtain ⟨whole, sized⟩ := cut?_eq_some cut
    rw [none, List.append_nil] at whole
    rw [found, ← sized, ← whole]
  · intro found
    simp [found, opened, closed]

theorem layoutEdits_whole_iff {text : String} {options : LayoutOptions} {edit : TextEdit}
    (member : edit ∈ layoutEdits text ((Formatter.layout .standard).format text options)) :
    layoutEdits text ((Formatter.layout .standard).format text options) = [edit] ∧
      (Formatter.layout .standard).format text options = .ok edit.newText ∧
      offsetOf? text.toList edit.extent.start = some 0 ∧
      (offsetOf? text.toList edit.extent.stop = some (size text.toList) ↔
        EndTold text.toList) ∧
      (edit.result? text = some edit.newText ↔ EndTold text.toList) ∧
      (size text.toList < UInt32.size →
        (EndTold text.toList ↔ ∀ c ∈ lastLine text.toList, c.toNat < 0x80)) ∧
      layoutEdits edit.newText ((Formatter.layout .standard).format edit.newText options) =
        [] := by
  cases read : Model.parse text with
  | error error =>
    have failed : (Formatter.layout .standard).format text options = .error error := by
      simp [Formatter.layout, Parser.standard, read, Except.map]
    simp [failed, layoutEdits] at member
  | ok model =>
    have again := format_layoutAs read options options
    rw [format_of_parse read] at member ⊢
    by_cases kept : layoutAs options model text = text
    · simp [layoutEdits, kept] at member
    · have edits : layoutEdits text (.ok (layoutAs options model text)) =
          [⟨⟨⟨0, 0⟩, endPosition text.toList⟩, layoutAs options model text⟩] := by
        simp [layoutEdits, kept]
      rw [edits] at member ⊢
      obtain rfl := List.mem_singleton.1 member
      refine ⟨rfl, rfl, offsetOf?_zero _, offsetOf?_endPosition_iff _, ?_, endTold_iff, ?_⟩
      · exact (result?_whole_iff ..).trans (offsetOf?_endPosition_iff _)
      · simp [layoutEdits, again]

theorem layoutEdits_whole_second_line :
    ∃ edit ∈ layoutEdits "state A//é\nstate B "
        ((Formatter.layout .standard).format "state A//é\nstate B " .standard),
      edit.extent = ⟨⟨0, 0⟩, ⟨1, 8⟩⟩ ∧
        edit.result? "state A//é\nstate B " = some "state A //é\nstate B\n" := by
  have parsed : Model.parse "state A//é\nstate B " = .ok ⟨none,
      [⟨⟨"A", ⟨6, 7⟩⟩, false, ⟨0, 12⟩⟩, ⟨⟨"B", ⟨18, 19⟩⟩, false, ⟨12, 20⟩⟩], []⟩ := by cbv
  have member : (⟨⟨⟨0, 0⟩, ⟨1, 8⟩⟩, "state A //é\nstate B\n"⟩ : TextEdit) ∈
      layoutEdits "state A//é\nstate B "
        ((Formatter.layout .standard).format "state A//é\nstate B " .standard) := by
    rw [format_of_parse parsed]
    decide +kernel
  obtain ⟨-, -, -, -, whole, -⟩ := layoutEdits_whole_iff member
  have told : EndTold "state A//é\nstate B ".toList := ⟨by decide +kernel, by decide +kernel⟩
  exact ⟨_, member, rfl, whole.2 told⟩

theorem layoutEdits_past_accent :
    layoutEdits "state A //é" ((Formatter.layout .standard).format "state A //é" .standard) =
        [⟨⟨⟨0, 0⟩, ⟨0, 12⟩⟩, "state A //é\n"⟩] ∧
      offsetOf? "state A //é".toList ⟨0, 12⟩ = none ∧
      offsetOf? "state A //é".toList ⟨0, 11⟩ = some (size "state A //é".toList) ∧
      TextEdit.result? ⟨⟨⟨0, 0⟩, ⟨0, 12⟩⟩, "state A //é\n"⟩ "state A //é" = none := by
  have parsed : Model.parse "state A //é" =
      .ok ⟨none, [⟨⟨"A", ⟨6, 7⟩⟩, false, ⟨0, 12⟩⟩], []⟩ := by cbv
  refine ⟨?_, by decide +kernel, by decide +kernel, by decide +kernel⟩
  rw [format_of_parse parsed]
  decide +kernel

end FsmWorkbench
