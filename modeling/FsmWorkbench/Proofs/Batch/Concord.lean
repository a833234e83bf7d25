import FsmWorkbench.Batch.Check
import FsmWorkbench.Proofs.Editor.Sessions
import FsmWorkbench.Proofs.Text.Places
import FsmWorkbench.Proofs.Validation.Advice

set_option autoImplicit false

namespace FsmWorkbench

open Text

namespace Container

def after (container : Container) (history : List Injector.Operation) : Container :=
  { container with state := container.injector.after container.state history }

theorem Runs.after {container : Container} {injector : Injector Service Workshop}
    (runs : container.Runs injector) (history : List Injector.Operation) :
    (container.after history).Runs injector := by
  obtain ⟨rfl, obliging, kept⟩ := runs
  exact ⟨rfl, obliging, (Injector.verdict_lawful container.injector).keeps_after
    Injector.verdict_shutdown kept history⟩

end Container

theorem checkPaths_eq_ok (parser : Parser) (validator : Validator)
    {read : String → Except ReadError String} {paths : List String} {text : String → String}
    (readable : ∀ path ∈ paths, read path = .ok (text path)) :
    checkPaths parser validator read paths =
      .ok ⟨paths.length, paths.flatMap fun path => checkText parser validator path (text path)⟩ := by
  induction paths with
  | nil => rfl
  | cons path paths ih =>
    rw [List.forall_mem_cons] at readable
    rw [checkPaths, readable.1, ih readable.2]
    rfl

theorem checkPaths_singleton (parser : Parser) (validator : Validator)
    {read : String → Except ReadError String} {path text : String}
    (readable : read path = .ok text) :
    checkPaths parser validator read [path] = .ok ⟨1, checkText parser validator path text⟩ := by
  simp [checkPaths, readable, Except.map]

theorem checkFiles_eq_checkPaths {container : Container} {injector : Injector Service Workshop}
    (runs : container.Runs injector) {validator : Validator} (equipped : Equipped injector validator)
    (read : String → Except ReadError String) (paths : List String) :
    checkFiles container read paths = checkPaths .standard validator read paths := by
  obtain ⟨_, parser, runs⟩ := runs.exists_resolveSlot equipped.parser
  obtain ⟨_, validator, -⟩ := runs.exists_resolveSlot equipped.validator
  rw [checkFiles]
  simp only [parser, validator]

-- Findings count lines and columns from one.
def Finding.ofDiagnostic (path : String) (diagnostic : Diagnostic) : Finding where
  path := path
  line := diagnostic.extent.start.line + 1
  column := diagnostic.extent.start.character + 1
  severity := diagnostic.severity
  code := diagnostic.code
  message := diagnostic.message

def Diagnostic.errors (diagnostics : List Diagnostic) : List Diagnostic :=
  diagnostics.filter (·.severity == .error)

theorem exists_places {text : String} {error : ParseError}
    (failed : Model.parse text = .error error) :
    ∃ line column, error.line = line + 1 ∧ error.column = column + 1 ∧
      line + column ≤ size text.toList := by
  rw [Model.parse] at failed
  split at failed
  · cases failed
  · next offset expected _ =>
    obtain rfl := Except.error.inj failed
    have narrow : ∀ c : Char, 1 ≤ c.utf8Size := fun c => c.utf8Size_pos
    have bound := advance_le narrow text.toList offset 0 0
    exact ⟨_, _, rfl, rfl, by simpa using bound⟩

theorem Finding.ofDiagnostic_ofParseError {text : String} {error : ParseError}
    (failed : Model.parse text = .error error) (path : String) :
    Finding.ofDiagnostic path (.ofParseError error) = .ofParseError path error := by
  obtain ⟨line, column, atLine, atColumn, -⟩ := exists_places failed
  rw [ofDiagnostic, ofParseError, Diagnostic.ofParseError, extentOfLines, atLine, atColumn]
  simp only [Nat.add_sub_cancel, UInt32.ofNat_add]
  rfl

theorem toNat_ofNat_le {n bound : Nat} (within : n ≤ bound) : (UInt32.ofNat n).toNat ≤ bound := by
  rw [UInt32.toNat_ofNat']
  exact Nat.le_trans (Nat.mod_le n _) within

theorem toNat_add_one {n : UInt32} {bound : Nat} (within : n.toNat ≤ bound)
    (small : bound + 1 < UInt32.size) : (n + 1).toNat = n.toNat + 1 := by
  rw [UInt32.toNat_add]
  exact Nat.mod_eq_of_lt (Nat.lt_of_le_of_lt (Nat.add_le_add_right within 1) small)

namespace Session

variable {session : Session} {document : Document}

theorem errors_diagnosticsOf_eq_self (quiet : session.settings.warnings = false) :
    Diagnostic.errors (session.diagnosticsOf document) = session.diagnosticsOf document := by
  rw [diagnosticsOf]
  split
  · rfl
  · rw [Diagnostic.errors, List.filter_eq_self]
    intro diagnostic member
    obtain ⟨issue, kept, rfl⟩ := List.mem_map.1 member
    have error := (List.mem_filter.1 kept).2
    rwa [quiet, Bool.false_or] at error

-- Filtering twice leaves the errors, and among the issues of an editor those are the core issues.
theorem map_errors_diagnosticsOf (services : session.services = .standard)
    {digest : String → Digest} (made : document.Made .standard digest) (path : String) :
    (Diagnostic.errors (session.diagnosticsOf document)).map (.ofDiagnostic path) =
      checkText .standard .core path document.text := by
  rw [diagnosticsOf, checkText, made.parsed, made.index, services]
  simp only [Parser.standard]
  cases read : Model.parse document.text with
  | error error =>
    exact congrArg ([·]) (Finding.ofDiagnostic_ofParseError read path)
  | ok model =>
    have kept (issue : Issue) : (issue.severity == .error &&
        (session.settings.warnings || issue.severity == .error)) = (issue.severity == .error) := by
      cases issue.severity == .error <;> simp
    calc
      (Diagnostic.errors (((model.advise model.coreIssues).filter fun issue =>
          session.settings.warnings || issue.severity == .error).map
            (Diagnostic.ofIssue document.text.toList))).map (Finding.ofDiagnostic path)
        = (((model.advise model.coreIssues).filter fun issue =>
            session.settings.warnings || issue.severity == .error).filter
              (·.severity == .error)).map (Finding.ofIssue path document.text.toList) := by
          rw [Diagnostic.errors, List.filter_map, List.map_map]
          rfl
      _ = model.coreIssues.map (Finding.ofIssue path document.text.toList) := by
          rw [List.filter_filter]
          simp only [kept, model.filter_advise_coreIssues]

theorem starts_within_of_mem_diagnosticsOf {digest : String → Digest}
    (made : document.Made .standard digest) :
    ∀ diagnostic ∈ session.diagnosticsOf document,
      diagnostic.extent.start.line.toNat ≤ size document.text.toList ∧
        diagnostic.extent.start.character.toNat ≤ size document.text.toList := by
  intro diagnostic member
  rw [diagnosticsOf, made.parsed, made.index] at member
  split at member
  · next error failed =>
    obtain rfl := List.mem_singleton.1 member
    obtain ⟨line, column, atLine, atColumn, bound⟩ := exists_places failed
    simp only [Diagnostic.ofParseError, extentOfLines, atLine, atColumn, Nat.add_sub_cancel]
    exact ⟨toNat_ofNat_le (by omega), toNat_ofNat_le (by omega)⟩
  · obtain ⟨issue, -, rfl⟩ := List.mem_map.1 member
    have bound := advance_le units_le_utf8Size document.text.toList issue.span.start 0 0
    simp only [Diagnostic.ofIssue, extentOf_ofText, positionOf]
    exact ⟨toNat_ofNat_le (by omega), toNat_ofNat_le (by omega)⟩

end Session

theorem diagnostics_exact :
    ∃ session container, Session.start = .ok session ∧ Container.standalone = .ok container ∧
      ∀ (history : List Request) (operations : List Injector.Operation),
        let current := (session.run history).2
        let check := checkFiles (container.after operations)
        (∀ uri version text, ∃ publication document,
          current.Publishes (.didOpen uri version text) publication document ∧
            publication.uri = uri ∧ document.text = text) ∧
        (∀ request publication document, current.Publishes request publication document →
          (∀ read path, read path = .ok document.text →
            check read [path] =
                .ok ⟨1, (Diagnostic.errors publication.diagnostics).map (.ofDiagnostic path)⟩ ∧
              (current.settings.warnings = false →
                check read [path] = .ok ⟨1, publication.diagnostics.map (.ofDiagnostic path)⟩)) ∧
          (size document.text.toList + 1 < UInt32.size → ∀ diagnostic ∈ publication.diagnostics,
            (diagnostic.extent.start.line + 1).toNat = diagnostic.extent.start.line.toNat + 1 ∧
              (diagnostic.extent.start.character + 1).toNat =
                diagnostic.extent.start.character.toNat + 1)) ∧
        ∀ read paths, (∀ path ∈ paths, ∃ text, read path = .ok text) →
          ∃ findings : String → List Finding,
            (∀ path ∈ paths, check read [path] = .ok ⟨1, findings path⟩) ∧
              check read paths = .ok ⟨paths.length, paths.flatMap findings⟩ := by
  obtain ⟨session, started, services, documents, -, -⟩ := Session.exists_start_eq_ok
  obtain ⟨container, alone, runs⟩ := exists_standalone_eq_ok
  refine ⟨session, container, started, alone, fun history operations => ?_⟩
  have check := checkFiles_eq_checkPaths (runs.after operations) runtime_equipped
  have kept := (session.services_run history).trans services
  refine ⟨Session.exists_publishes_didOpen _, ?_, ?_⟩
  · intro request publication document publishes
    have fresh : session.documents = .fresh .standard session.documents.digest := by
      rw [documents]
      rfl
    have made := Session.made_of_opened fresh publishes.opened
    have shown := publishes.diagnostics
    have errors (path : String) := Session.map_errors_diagnosticsOf kept made path
    refine ⟨fun read path readable => ⟨?_, fun quiet => ?_⟩, fun small diagnostic member => ?_⟩
    · rw [check, checkPaths_singleton _ _ readable, shown, errors]
    · rw [check, checkPaths_singleton _ _ readable, shown, ← errors,
        Session.errors_diagnosticsOf_eq_self quiet]
    · rw [shown] at member
      have starts := Session.starts_within_of_mem_diagnosticsOf made diagnostic member
      exact ⟨toNat_add_one starts.1 small, toNat_add_one starts.2 small⟩
  · intro read paths readable
    choose! text same using readable
    refine ⟨fun path => checkText .standard .core path (text path), fun path member => ?_, ?_⟩
    · rw [check, checkPaths_singleton _ _ (same path member)]
    · rw [check, checkPaths_eq_ok _ _ same]

end FsmWorkbench
