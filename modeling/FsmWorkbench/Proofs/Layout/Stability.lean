import FsmWorkbench.Proofs.Layout.Preservation
import FsmWorkbench.Proofs.Notation.Language
import Mathlib

set_option autoImplicit false

namespace FsmWorkbench

open Text

-- Spacing out brings no two slashes together that stood apart.
theorem spaceOut_visible_spaceOut {stage : LineStage} {c : Char} {rest : List Char}
    (outside : stage ≠ .quoted) (alone : ¬(c = '/' ∧ rest.head? = some '/'))
    (visible : isBlank c = false) :
    let next : LineStage := if c = '"' then .quoted else .code
    spaceOut stage (c :: spaceOut next rest) =
      (if stage = .gap then [' '] else []) ++ c :: spaceOut next (spaceOut next rest) := by
  intro next
  by_cases slash : c = '/'
  · subst slash
    have apart : (spaceOut .code rest).head? ≠ some '/' := by
      intro head
      have before := head?_spaceOut_code rest '/' head
      simp_all
    rw [spaceOut, if_neg outside, if_neg (by simpa [next] using apart), if_neg (by simp [visible])]
  · exact spaceOut_visible _ outside slash visible

theorem spaceOut_spaceOut (stage : LineStage) (line : List Char) :
    spaceOut stage (spaceOut stage line) = spaceOut stage line := by
  have space : isBlank ' ' = true := by decide
  fun_induction spaceOut stage line with
  | case1 => rw [spaceOut]
  | case2 c rest ih => rw [spaceOut, if_pos rfl, ih]
  | case3 stage c rest outside comment =>
    obtain ⟨rfl, second⟩ := comment
    obtain ⟨more, rfl⟩ := List.head?_eq_some_iff.1 second
    rw [trimEnd_comment]
    by_cases opening : stage = .opening
    · simp [opening, spaceOut_comment, trimEnd_comment, trimEnd_trimEnd]
    · simp [opening, spaceOut_blank _ outside space, spaceOut_comment, trimEnd_comment,
        trimEnd_trimEnd]
  | case4 stage c rest outside _ blank ih =>
    by_cases opening : stage = .opening
    · simpa [opening] using ih
    · simp only [opening, if_false] at ih ⊢
      have head := head?_spaceOut_gap rest
      cases spaced : spaceOut .gap rest with
      | nil => rw [spaceOut]
      | cons d more =>
        obtain rfl : d = ' ' := head d (by simp [spaced])
        rw [spaced, spaceOut_blank _ (by simp) space] at ih
        rwa [spaceOut_blank _ outside space, if_neg opening]
  | case5 stage c rest outside comment visible ih =>
    have visible : isBlank c = false := by simpa using visible
    by_cases gap : stage = .gap
    · simp only [gap, if_true, List.singleton_append]
      rw [spaceOut_blank _ (by simp) space, if_neg (by simp),
        spaceOut_visible_spaceOut (by simp) comment visible, ih]
      rfl
    · simp only [gap, if_false, List.nil_append]
      rw [spaceOut_visible_spaceOut outside comment visible, ih, if_neg gap, List.nil_append]

theorem trimEnd_spaceOut {stage : LineStage} {line : List Char} (kept : trimEnd line = line) :
    trimEnd (spaceOut stage line) = spaceOut stage line := by
  fun_induction spaceOut stage line with
  | case1 => rfl
  | case2 c rest ih =>
    obtain ⟨later, last⟩ := trimEnd_cons_eq_self_iff.1 kept
    refine trimEnd_cons_eq_self_iff.2 ⟨ih later, fun none => ?_⟩
    by_cases quote : c = '"'
    · rw [quote]
      decide
    · cases rest with
      | nil => exact last rfl
      | cons d rest => simp [quote, spaceOut] at none
  | case3 stage c rest outside comment =>
    have ended := trimEnd_trimEnd (c :: rest)
    split
    · exact ended
    · refine trimEnd_cons_eq_self_iff.2 ⟨ended, fun none => ?_⟩
      have blank := trimEnd_eq_nil_iff.1 none c List.mem_cons_self
      rw [comment.1] at blank
      exact absurd blank (by decide)
  | case4 stage c rest outside _ blank ih => exact ih (trimEnd_cons_eq_self_iff.1 kept).1
  | case5 stage c rest outside comment visible ih =>
    have ended := trimEnd_cons_eq_self_iff.2
      ⟨ih (trimEnd_cons_eq_self_iff.1 kept).1, fun _ => by simpa using visible⟩
    split
    · exact trimEnd_cons_eq_self_iff.2 ⟨ended, by simp⟩
    · exact ended

theorem head?_spaceOut_opening (line : List Char) :
    ∀ c ∈ (spaceOut .opening line).head?, isBlank c = false := by
  induction line with
  | nil => simp [spaceOut]
  | cons d rest ih =>
    by_cases comment : d = '/' ∧ rest.head? = some '/'
    · obtain ⟨rfl, second⟩ := comment
      obtain ⟨more, rfl⟩ := List.head?_eq_some_iff.1 second
      simp [spaceOut_comment, trimEnd_comment, show isBlank '/' = false by decide]
    · cases blank : isBlank d with
      | true =>
        rw [spaceOut_blank _ (by simp) blank]
        exact ih
      | false => simp [spaceOut, comment, blank]

theorem isBlank_of_spaceOut_eq_nil {line : List Char} (none : spaceOut .opening line = []) :
    ∀ c ∈ line, isBlank c = true := by
  induction line with
  | nil => simp
  | cons d rest ih =>
    by_cases comment : d = '/' ∧ rest.head? = some '/'
    · obtain ⟨rfl, second⟩ := comment
      obtain ⟨more, rfl⟩ := List.head?_eq_some_iff.1 second
      simp [spaceOut_comment, trimEnd_comment] at none
    · cases blank : isBlank d with
      | true =>
        rw [spaceOut_blank _ (by simp) blank] at none
        simpa [blank] using ih none
      | false => simp [spaceOut, comment, blank] at none

theorem trim_spaceOut {front : List Char} (blank : ∀ c ∈ front, isBlank c = true)
    (line : List Char) :
    trim (front ++ spaceOut .opening (trim line)) = spaceOut .opening (trim line) := by
  have started : trimStart (front ++ spaceOut .opening (trim line)) =
      spaceOut .opening (trim line) := by
    rw [trimStart, List.dropWhile_append_of_pos blank]
    exact dropWhile_eq_self (head?_spaceOut_opening _)
  rw [trim.eq_def (front ++ _), started]
  exact trimEnd_spaceOut (trimEnd_trimEnd _)

theorem isEmpty_spaceOut_trim (line : List Char) :
    (spaceOut .opening (trim line)).isEmpty = (trim line).isEmpty := by
  rw [Bool.eq_iff_iff, List.isEmpty_iff, List.isEmpty_iff]
  constructor
  · intro none
    have blank := trimEnd_eq_nil_iff.2 (isBlank_of_spaceOut_eq_nil none)
    rwa [trim, trimEnd_trimEnd] at blank
  · intro none
    rw [none, spaceOut]

-- Lines that were laid out with any indent are laid out like those they were made from. A gap is
-- written only between lines, so none is waiting at the start of a second layout.
theorem laidLines_laidLines {first : List Char} (plain : ∀ c ∈ first, isBlank c = true)
    (second : List Char) {gap written : Bool} (between : gap = true → written = true)
    (lines : List (List Char)) :
    laidLines second false written (laidLines first gap written lines) =
      laidLines second gap written lines := by
  induction lines generalizing gap written with
  | nil => simp [laidLines]
  | cons line rest ih =>
    rw [laidLines, laidLines.eq_def second gap written (line :: rest)]
    dsimp only
    split
    · exact ih (by simp)
    · next visible =>
      let spaced := spaceOut .opening (trim line)
      let indent := if opensMachine spaced then [] else first
      have blank : ∀ c ∈ indent, isBlank c = true := by
        intro c member
        simp only [indent] at member
        split at member
        · cases member
        · exact plain c member
      have trimmed : trim (indent ++ spaced) = spaced := trim_spaceOut blank line
      have shown : spaced.isEmpty = false := by
        rw [isEmpty_spaceOut_trim]
        simpa using visible
      have again : spaceOut .opening spaced = spaced := spaceOut_spaceOut ..
      have later := @ih false true (by simp)
      cases gap with
      | false => simp [laidLines, trimmed, shown, again, later, spaced, indent]
      | true =>
        have empty : trim [] = [] := rfl
        simp [laidLines, between rfl, empty, trimmed, shown, again, later, spaced, indent]

theorem exists_parse_layoutAs {text : String} {model : Model} (read : Model.parse text = .ok model)
    (options : LayoutOptions) :
    ∃ other, Model.parse (layoutAs options model text) = .ok other ∧
      other.outline = model.outline := by
  obtain ⟨pieces, laid, cut, cutLaid, same⟩ := exists_cuts_layoutAs read options
  exact parse_outline_of_lexemes cut cutLaid same.symm read

theorem isSome_machine_of_outline {model other : Model} (same : other.outline = model.outline) :
    other.machine.isSome = model.machine.isSome := by
  have machines : other.outline.machine.isSome = model.outline.machine.isSome := by rw [same]
  simpa [Model.outline] using machines

theorem layoutAs_layoutAs (first second : LayoutOptions) {model other : Model}
    (same : other.machine.isSome = model.machine.isSome) (text : String) :
    layoutAs second other (layoutAs first model text) = layoutAs second model text := by
  have plain : ∀ c ∈ bodyIndent first model.machine.isSome, isBlank c = true :=
    fun c member => isBlank_between ((plain_bodyIndent _ _ c member).imp_right .inl)
  apply String.toList_injective
  have ended := @laidLines_append_blank (bodyIndent second model.machine.isSome) false false
    (laidLines (bodyIndent first model.machine.isSome) false false (text.toList.splitOn '\n')) 1
  rw [List.replicate_one] at ended
  rw [toList_layoutAs second, splitOn_layoutAs, same, ended, laidLines_laidLines plain _ (by simp),
    toList_layoutAs]

theorem format_layoutAs {text : String} {model : Model} (read : Model.parse text = .ok model)
    (first second : LayoutOptions) :
    (Formatter.layout .standard).format (layoutAs first model text) second =
      .ok (layoutAs second model text) := by
  obtain ⟨other, readLaid, same⟩ := exists_parse_layoutAs read first
  rw [format_of_parse readLaid, layoutAs_layoutAs _ _ (isSome_machine_of_outline same)]

theorem format_again {text : String} {model : Model} (read : Model.parse text = .ok model)
    (first second : LayoutOptions) :
    ∃ once laid, (Formatter.layout .standard).format text first = .ok once ∧
      (Formatter.layout .standard).format text second = .ok laid ∧
      (Formatter.layout .standard).format once second = .ok laid ∧
      (Formatter.layout .standard).format laid second = .ok laid :=
  ⟨_, _, format_of_parse read first, format_of_parse read second,
    format_layoutAs read first second, format_layoutAs read second second⟩

theorem format_again_tabs :
    ∃ model, Model.parse "machine m\nstate A//b \n" = .ok model ∧
      (Formatter.layout .standard).format "machine m\nstate A//b \n" ⟨0, true, true⟩ =
        .ok "machine m\n\tstate A //b\n" ∧
      (Formatter.layout .standard).format "machine m\n\tstate A //b\n" ⟨2, false, true⟩ =
        .ok "machine m\n  state A //b\n" := by
  have parsed : Model.parse "machine m\nstate A//b \n" =
      .ok ⟨some ⟨⟨"m", ⟨8, 9⟩⟩, ⟨0, 9⟩⟩, [⟨⟨"A", ⟨16, 17⟩⟩, false, ⟨10, 22⟩⟩], []⟩ := by cbv
  obtain ⟨once, laid, first, second, again, -⟩ := format_again parsed ⟨0, true, true⟩
    ⟨2, false, true⟩
  have tabbed : once = "machine m\n\tstate A //b\n" := by
    rw [format_of_parse parsed] at first
    rw [← Except.ok.inj first]
    decide +kernel
  have spaced : laid = "machine m\n  state A //b\n" := by
    rw [format_of_parse parsed] at second
    rw [← Except.ok.inj second]
    decide +kernel
  rw [tabbed] at first again
  rw [spaced] at again
  exact ⟨_, parsed, first, again⟩

end FsmWorkbench
