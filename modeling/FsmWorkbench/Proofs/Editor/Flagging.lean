import FsmWorkbench.Editor.Diagnostic
import FsmWorkbench.Proofs.Notation.Faults
import FsmWorkbench.Proofs.Text.Resolving

set_option autoImplicit false

namespace FsmWorkbench

open Text

namespace Text

theorem lineColumnOf_lastLine (front rest : List Char) :
    lineColumnOf (front ++ rest) (size front) =
      (front.count '\n' + 1, (lastLine front).length + 1) := by
  rw [lineColumnOf_size, lastLine, List.length_reverse]

theorem ofNat_length_eq_iff {front : List Char} (small : size front < UInt32.size) :
    UInt32.ofNat (lastLine front).length = UInt32.ofNat (breadth (lastLine front)) ↔
      ∀ c ∈ lastLine front, c.toNat < 0x10000 := by
  have narrow := breadth_le_size (lastLine front)
  have last := size_lastLine_le front
  have short := length_le_breadth (lastLine front)
  rw [← length_eq_breadth_iff]
  constructor
  · intro same
    have cut := congrArg UInt32.toNat same
    rwa [UInt32.toNat_ofNat_of_lt' (by omega), UInt32.toNat_ofNat_of_lt' (by omega)] at cut
  · intro same
    rw [same]

end Text

theorem start_ofParseError {error : ParseError} {line column : Nat}
    (place : (error.line, error.column) = (line + 1, column + 1)) :
    (Diagnostic.ofParseError error).extent.start = ⟨UInt32.ofNat line, UInt32.ofNat column⟩ := by
  obtain ⟨lines, columns⟩ := Prod.mk.inj place
  simp [Diagnostic.ofParseError, extentOfLines, lines, columns]

theorem ofParseError_start_iff {text : String} {error : ParseError}
    (failed : Model.parse text = .error error) :
    ∃ front rest, text.toList = front ++ rest ∧ size front = error.offset ∧
      lineColumnOf text.toList error.offset = (error.line, error.column) ∧
      (Diagnostic.ofParseError error).code = "E000" ∧
      (offsetOf? text.toList (Diagnostic.ofParseError error).extent.start = some error.offset ↔
        front.count '\n' < UInt32.size ∧
          (lastLine front).length % UInt32.size = breadth (lastLine front)) ∧
      ((Diagnostic.ofParseError error).extent.start = positionOf text.toList error.offset ↔
        UInt32.ofNat (lastLine front).length = UInt32.ofNat (breadth (lastLine front))) ∧
      (size text.toList < UInt32.size →
        (offsetOf? text.toList (Diagnostic.ofParseError error).extent.start = some error.offset ↔
          ∀ c ∈ lastLine front, c.toNat < 0x10000) ∧
        ((Diagnostic.ofParseError error).extent.start = positionOf text.toList error.offset ↔
          ∀ c ∈ lastLine front, c.toNat < 0x10000)) := by
  obtain ⟨front, rest, tokens, last, same, -, -, fault, located⟩ := fault_of_parse_eq_error failed
  have place : size front = error.offset :=
    ((congrArg Prod.fst fault).trans (last.fst_fault _)).symm
  have shown := start_ofParseError (located.trans (lineColumnOf_lastLine front rest))
  have resolved : offsetOf? text.toList (Diagnostic.ofParseError error).extent.start =
      some error.offset ↔ front.count '\n' < UInt32.size ∧
        (lastLine front).length % UInt32.size = breadth (lastLine front) := by
    rw [shown, same, ← place]
    exact offsetOf?_ofNat_iff ..
  have marked : (Diagnostic.ofParseError error).extent.start =
      positionOf text.toList error.offset ↔
        UInt32.ofNat (lastLine front).length = UInt32.ofNat (breadth (lastLine front)) := by
    rw [shown, same, ← place, positionOf_size]
    simp
  refine ⟨front, rest, same, place, ?_, rfl, resolved, marked, fun small => ?_⟩
  · rw [same, ← place, located]
  · rw [same, size_append] at small
    have lines := count_add_breadth_le_size front
    have short := length_le_breadth (lastLine front)
    refine ⟨resolved.trans ?_, marked.trans (ofNat_length_eq_iff (by omega))⟩
    rw [Nat.mod_eq_of_lt (by omega), length_eq_breadth_iff]
    exact and_iff_right (by omega)

theorem ofParseError_start_behind_accent :
    ∃ error, Model.parse "transition t from A to A when \"é\" x" = .error error ∧
      (Diagnostic.ofParseError error).extent.start = ⟨0, 34⟩ ∧
      offsetOf? "transition t from A to A when \"é\" x".toList
        (Diagnostic.ofParseError error).extent.start = some error.offset := by
  have failed : Model.parse "transition t from A to A when \"é\" x" =
      .error ⟨35, [.endOfInput, .keyword .state, .keyword .transition], 1, 35⟩ := by
    decide +kernel
  obtain ⟨front, rest, same, place, -, -, shown, -⟩ := ofParseError_start_iff failed
  have before : front = "transition t from A to A when \"é\" ".toList := by
    have split : "transition t from A to A when \"é\" x".toList =
        "transition t from A to A when \"é\" ".toList ++ ['x'] := by decide +kernel
    exact eq_of_size_eq (same.symm.trans split) (place.trans (by decide +kernel))
  refine ⟨_, failed, by decide, shown.2 ?_⟩
  rw [before]
  exact ⟨by decide +kernel, by decide +kernel⟩

theorem ofParseError_start_behind_door :
    ∃ error, Model.parse "transition t from A to A when \"🚪\" x" = .error error ∧
      lineColumnOf "transition t from A to A when \"🚪\" x".toList error.offset =
        (error.line, error.column) ∧
      (Diagnostic.ofParseError error).extent.start = ⟨0, 34⟩ ∧
      positionOf "transition t from A to A when \"🚪\" x".toList error.offset = ⟨0, 35⟩ ∧
      offsetOf? "transition t from A to A when \"🚪\" x".toList ⟨0, 34⟩ = some 36 ∧
      error.offset = 37 :=
  ⟨⟨37, [.endOfInput, .keyword .state, .keyword .transition], 1, 35⟩, by decide +kernel,
    by decide +kernel, by decide +kernel, by decide +kernel, by decide +kernel, rfl⟩

end FsmWorkbench
