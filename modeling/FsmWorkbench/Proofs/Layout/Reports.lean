import FsmWorkbench.Proofs.Layout.Preservation
import FsmWorkbench.Proofs.Validation.Reporting
import Mathlib

set_option autoImplicit false

namespace FsmWorkbench

def Issue.report (issue : Issue) : Severity × String × String :=
  (issue.severity, issue.code, issue.message)

theorem Issue.map_report_moved (move : Span → Span) (issues : List Issue) :
    (issues.map (moved move)).map report = issues.map report := by
  rw [List.map_map]
  rfl

theorem steady_id (spans : List Span) : Steady id spans :=
  ⟨rfl, fun _ _ _ _ => Iff.rfl⟩

namespace Model

variable {model other : Model} {move : Span → Span}

theorem coreIssues_of_moved (steady : Steady move model.spans)
    (same : other.moved id = model.moved move) :
    other.coreIssues = model.coreIssues.map (Issue.moved move) := by
  rw [← coreIssues_moved steady, ← same, coreIssues_moved (steady_id _), Issue.map_moved_id]

theorem editorIssues_of_moved (steady : Steady move model.spans)
    (same : other.moved id = model.moved move) :
    other.editorIssues = model.editorIssues.map (Issue.moved move) := by
  have advised := advise_moved (steady_id _) other.places_coreIssues
  rw [Issue.map_moved_id, Issue.map_moved_id, same, coreIssues_of_moved steady same,
    advise_moved steady model.places_coreIssues] at advised
  rw [editorIssues, coreIssues_of_moved steady same, ← advised, editorIssues]

theorem describe_of_moved (same : other.moved id = model.moved move) (info : LanguageInfo) :
    other.describe info = model.describe info := by
  rw [← other.describe_moved, same, describe_moved]

end Model

theorem exists_moved_layoutAs {text : String} {model : Model} (read : Model.parse text = .ok model)
    (options : LayoutOptions) :
    ∃ other move, Model.parse (layoutAs options model text) = .ok other ∧
      Steady move model.spans ∧ other.moved id = model.moved move := by
  obtain ⟨pieces, laid, cut, cutLaid, same⟩ := exists_cuts_layoutAs read options
  exact Model.exists_moved cut cutLaid same.symm read

theorem format_reports {text : String} {model : Model} (read : Model.parse text = .ok model)
    (options : LayoutOptions) :
    ∃ laid other, (Formatter.layout .standard).format text options = .ok laid ∧
      Model.parse laid = .ok other ∧
      (Validator.core.validate other).map Issue.report =
        (Validator.core.validate model).map Issue.report ∧
      (Validator.core.advising.validate other).map Issue.report =
        (Validator.core.advising.validate model).map Issue.report ∧
      ∀ info pretty, (Generator.json info).generate other pretty =
        (Generator.json info).generate model pretty := by
  obtain ⟨other, move, readLaid, steady, same⟩ := exists_moved_layoutAs read options
  have core : other.coreIssues = model.coreIssues.map (Issue.moved move) :=
    Model.coreIssues_of_moved steady same
  have editor : other.editorIssues = model.editorIssues.map (Issue.moved move) :=
    Model.editorIssues_of_moved steady same
  refine ⟨_, other, format_of_parse read options, readLaid, ?_, ?_, fun info pretty => ?_⟩
  · exact (congrArg _ core).trans (Issue.map_report_moved ..)
  · exact (congrArg _ editor).trans (Issue.map_report_moved ..)
  · exact congrArg (Json.render pretty) (Model.describe_of_moved same info)

-- What is found first need not be reported first.
theorem format_reports_in_order :
    ∃ laid other, (Formatter.layout .standard).format "state  A state A" .standard = .ok laid ∧
      Model.parse laid = .ok other ∧
      (Validator.core.advising.validate other).map Issue.report =
        [(.warning, "W002", "Missing machine declaration"),
          (.error, "E004", "No initial state declared"), (.error, "E002", "Duplicate state: A")] := by
  let model : Model :=
    ⟨none, [⟨⟨"A", ⟨7, 8⟩⟩, false, ⟨0, 9⟩⟩, ⟨⟨"A", ⟨15, 16⟩⟩, false, ⟨9, 16⟩⟩], []⟩
  have parsed : Model.parse "state  A state A" = .ok model := by decide +kernel
  have rules : model.duplicateStates ++ model.duplicateTransitions ++ model.undefinedStates ++
      model.initialIssues = [⟨.duplicateState "A", ⟨15, 16⟩⟩, ⟨.noInitialState, ⟨7, 8⟩⟩] := by
    decide +kernel
  have core : model.coreIssues =
      [⟨.noInitialState, ⟨7, 8⟩⟩, ⟨.duplicateState "A", ⟨15, 16⟩⟩] := by
    rw [Model.coreIssues, rules]
    cbv
  have advice : [⟨.noInitialState, ⟨7, 8⟩⟩, ⟨.duplicateState "A", ⟨15, 16⟩⟩] ++
      model.missingMachine ++ model.unreachableStates = [⟨.noInitialState, ⟨7, 8⟩⟩,
        ⟨.duplicateState "A", ⟨15, 16⟩⟩, ⟨.missingMachine, ⟨0, 0⟩⟩] := by
    decide +kernel
  have issues : Validator.core.advising.validate model = [⟨.missingMachine, ⟨0, 0⟩⟩,
      ⟨.noInitialState, ⟨7, 8⟩⟩, ⟨.duplicateState "A", ⟨15, 16⟩⟩] := by
    change model.advise model.coreIssues = _
    rw [core, Model.advise, advice]
    cbv
  obtain ⟨laid, other, formatted, readLaid, -, editor, -⟩ := format_reports parsed .standard
  refine ⟨laid, other, formatted, readLaid, editor.trans ?_⟩
  rw [issues]
  decide +kernel

end FsmWorkbench
