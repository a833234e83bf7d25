import FsmWorkbench.Proofs.Editor.Publishing

set_option autoImplicit false

namespace FsmWorkbench

def Warns (diagnostics : List Diagnostic) : Prop :=
  ∃ diagnostic ∈ diagnostics, diagnostic.severity = .warning

-- A text that there is a warning about, whether it is shown or not.
def Advises (text : String) : Prop :=
  ∃ model, Model.parse text = .ok model ∧
    ∃ issue ∈ (Validator.advising .core).validate model, issue.severity = .warning

theorem not_warns_nil : ¬ Warns [] := by
  rintro ⟨_, member, _⟩
  cases member

theorem warns_diagnosticsIn_iff {text : String} {settings : Settings} :
    Warns (diagnosticsIn text settings) ↔ settings.warnings = true ∧ Advises text := by
  rw [diagnosticsIn]
  constructor
  · rintro ⟨diagnostic, member, warning⟩
    split at member
    · obtain rfl := List.mem_singleton.1 member
      cases warning
    · next model parsed =>
      obtain ⟨issue, kept, rfl⟩ := List.mem_map.1 member
      obtain ⟨found, shown⟩ := List.mem_filter.1 kept
      have severity : issue.severity = .warning := warning
      rw [severity] at shown
      exact ⟨by simpa using shown, model, parsed, issue, found, severity⟩
  · rintro ⟨on, model, parsed, issue, found, severity⟩
    rw [parsed]
    refine ⟨.ofIssue text.toList issue, ?_, severity⟩
    refine List.mem_map_of_mem (List.mem_filter.2 ⟨found, ?_⟩)
    rw [on, Bool.true_or]

-- There is only one place in a history at which a document was looked at last.
theorem Request.last_refresh_unique {uri : String} {before after before' after' : List Request}
    {request : Request} (request' : Request)
    (same : before ++ request :: after = before' ++ request' :: after')
    (refreshes : request.refreshes uri = true)
    (quiet : ∀ later ∈ after, later.refreshes uri = false)
    (refreshes' : request'.refreshes uri = true)
    (quiet' : ∀ later ∈ after', later.refreshes uri = false) : before = before' := by
  rcases List.append_eq_append_iff.1 same with ⟨between, rfl, rests⟩ | ⟨between, rfl, rests⟩
  · cases between with
    | nil => simp
    | cons first between =>
      have later : request' ∈ after := by rw [(List.cons.inj rests).2]; simp
      rw [quiet request' later] at refreshes'
      cases refreshes'
  · cases between with
    | nil => simp
    | cons first between =>
      have later : request ∈ after' := by rw [(List.cons.inj rests).2]; simp
      rw [quiet' request later] at refreshes
      cases refreshes

namespace Session

variable {session : Session}

theorem not_warns_diagnosticsOf (off : session.settings.warnings = false) (document : Document) :
    ¬ Warns (session.diagnosticsOf document) := by
  rintro ⟨diagnostic, member, warning⟩
  rw [diagnosticsOf] at member
  split at member
  · obtain rfl := List.mem_singleton.1 member
    cases warning
  · obtain ⟨issue, kept, rfl⟩ := List.mem_map.1 member
    have shown := (List.mem_filter.1 kept).2
    have severity : issue.severity = .warning := warning
    rw [off, severity] at shown
    cases shown

theorem not_warns_step (off : session.settings.warnings = false) {request : Request}
    {publication : Publication} (sends : publication ∈ (session.step request).2.1) :
    ¬ Warns publication.diagnostics := by
  cases session.turn request publication.uri with
  | kept silent => exact absurd rfl (silent publication sends)
  | shown _ _ sent =>
    rw [sent] at sends
    rw [List.mem_singleton.1 sends]
    exact not_warns_diagnosticsOf off _
  | closed _ _ sent =>
    rw [sent] at sends
    rw [List.mem_singleton.1 sends]
    exact not_warns_nil

namespace Fresh

theorem lastSent_run (fresh : session.Fresh) {history : List Request} {uri : String}
    {document : Document} (opened : (session.run history).2.documents.get? uri = some document) :
    ∃ before request after, history = before ++ request :: after ∧ request.refreshes uri = true ∧
      (∀ later ∈ after, later.refreshes uri = false) ∧
        lastSent? uri (session.sent history) =
          some ⟨uri, diagnosticsIn document.text (session.run before).2.settings,
            some document.version⟩ := by
  obtain ⟨before, request, after, split, refreshes, quiet, last⟩ :=
    (follows_run fresh.get?_eq_none history uri).opened document opened
  refine ⟨before, request, after, split, refreshes, quiet, ?_⟩
  rw [last, fresh.diagnosticsOf_run before (fresh.made_run opened), fresh.settings_run]

end Fresh

end Session

theorem muting_exact :
    ∃ session, Session.start = .ok session ∧
      ∀ (digest : String → Digest) (history : List Request),
        let session := session.hashing digest
        let current := (session.run history).2
        (∀ settings, (current.step (.configure settings)).2.1 = []) ∧
          (current.settings.warnings = false →
            (∀ uri document, current.documents.get? uri = some document →
              ∃ before request after, history = before ++ request :: after ∧
                request.refreshes uri = true ∧ (∀ later ∈ after, later.refreshes uri = false) ∧
                  ∃ publication, lastSent? uri (session.sent history) = some publication ∧
                    (Warns publication.diagnostics ↔
                      (session.run before).2.settings.warnings = true ∧ Advises document.text)) ∧
              ∀ request, ∀ publication ∈ (current.step request).2.1,
                ¬ Warns publication.diagnostics) := by
  obtain ⟨session, started, -, fresh⟩ := Session.exists_fresh
  refine ⟨session, started, fun digest history => ?_⟩
  intro session current
  refine ⟨fun settings => rfl, fun off => ⟨fun uri document opened => ?_, fun request publication =>
    Session.not_warns_step off⟩⟩
  obtain ⟨before, request, after, split, refreshes, quiet, last⟩ :=
    (fresh digest).lastSent_run opened
  exact ⟨before, request, after, split, refreshes, quiet, _, last, warns_diagnosticsIn_iff⟩

def warningsOff : Json :=
  .object [("fsm", .object [("validation", .object [("warnings", .bool false)])])]

theorem muting_exact_saved :
    ∃ session, Session.start = .ok session ∧
      let session := session.hashing Digest.mk
      let history : List Request :=
        [.didOpen "a" 1 "state A initial", .configure warningsOff, .didSave "a"]
      (session.run history).2.settings.warnings = false ∧
        ∃ publication, lastSent? "a" (session.sent history) = some publication ∧
          ¬ Warns publication.diagnostics := by
  obtain ⟨session, started, muted⟩ := muting_exact
  have fresh := Session.fresh_of_start started Digest.mk
  refine ⟨session, started, ?_⟩
  intro session history
  have off : (session.run history).2.settings.warnings = false := by
    rw [fresh.settings_run]
    decide
  have opened : (session.run history).2.documents.get? "a" =
      some (.refresh .standard Digest.mk none "state A initial" 1) := by
    rw [fresh.documents_run]
    rfl
  obtain ⟨before, request, after, split, refreshes, quiet, publication, last, warns⟩ :=
    ((muted Digest.mk history).2 off).1 "a" _ opened
  obtain rfl : before = [.didOpen "a" 1 "state A initial", .configure warningsOff] :=
    Request.last_refresh_unique (.didSave "a") split.symm refreshes quiet rfl (by simp)
  refine ⟨off, publication, last, fun shown => ?_⟩
  have on := (warns.1 shown).1
  rw [fresh.settings_run] at on
  exact absurd on (by decide)

theorem warning_outlives_setting :
    ∃ session, Session.start = .ok session ∧
      let history : List Request := [.didOpen "a" 1 "state A initial", .configure warningsOff]
      let current := (session.run history).2
      current.settings.warnings = false ∧
        ∃ document publication, current.documents.get? "a" = some document ∧
          lastSent? "a" (session.sent history) = some publication ∧
            Warns publication.diagnostics := by
  obtain ⟨session, started, fresh, -⟩ := Session.exists_fresh
  refine ⟨session, started, ?_⟩
  intro history current
  have opened : current.documents.get? "a" =
      some (.refresh .standard session.documents.digest none "state A initial" 1) := by
    rw [fresh.documents_run]
    rfl
  obtain ⟨before, request, after, split, refreshes, quiet, last⟩ := fresh.lastSent_run opened
  obtain rfl : before = [] :=
    Request.last_refresh_unique (.didOpen "a" 1 "state A initial") split.symm refreshes quiet rfl
      (by simp [Request.refreshes])
  refine ⟨by rw [fresh.settings_run]; decide, _, _, opened, last, ?_⟩
  refine warns_diagnosticsIn_iff.2 ⟨by rw [fresh.settings_run]; rfl, ?_⟩
  let model : Model := ⟨none, [⟨⟨"A", ⟨6, 7⟩⟩, true, ⟨0, 15⟩⟩], []⟩
  have read : Model.parse "state A initial" = .ok model := by cbv
  have warned : (Validator.advising .core).validate model = [⟨.missingMachine, ⟨0, 0⟩⟩] := by cbv
  exact ⟨model, read, _, by rw [warned]; exact List.mem_singleton_self _, rfl⟩

end FsmWorkbench
