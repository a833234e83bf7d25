import FsmWorkbench.Proofs.Editor.Sessions

set_option autoImplicit false

namespace FsmWorkbench

namespace Request

def uri? : Request → Option String
  | .didOpen uri _ _ | .didChange uri _ _ | .didClose uri | .didSave uri | .format uri _ _
  | .complete uri _ | .hover uri _ | .definition uri _ | .references uri _ _ | .generate uri _ =>
    some uri
  | .configure _ | .shutdown => none

def refreshes (uri : String) : Request → Bool
  | .didOpen other _ _ => other == uri
  | .didChange other _ texts => other == uri && !texts.isEmpty
  | .didSave other => other == uri
  | _ => false

def adjust (settings : Settings) : Request → Settings
  | .configure value => settings.update LanguageInfo.standard.languageId value
  | _ => settings

end Request

def settingsAfter (history : List Request) : Settings :=
  history.foldl Request.adjust .standard

def diagnosticsIn (text : String) (settings : Settings) : List Diagnostic :=
  match Model.parse text with
  | .error error => [.ofParseError error]
  | .ok model =>
    (((Validator.advising .core).validate model).filter fun issue =>
      settings.warnings || issue.severity == .error).map (.ofIssue text.toList)

def lastSent? (uri : String) (sent : List Publication) : Option Publication :=
  (sent.filter fun publication => publication.uri == uri).getLast?

theorem lastSent?_append_of_silent {uri : String} (sent : List Publication)
    {more : List Publication} (silent : ∀ publication ∈ more, publication.uri ≠ uri) :
    lastSent? uri (sent ++ more) = lastSent? uri sent := by
  have none : (more.filter fun publication => publication.uri == uri) = [] := by
    simpa using silent
  rw [lastSent?, List.filter_append, none, List.append_nil, lastSent?]

theorem lastSent?_concat (sent : List Publication) (uri : String) (diagnostics : List Diagnostic)
    (version : Option Int) :
    lastSent? uri (sent ++ [⟨uri, diagnostics, version⟩]) = some ⟨uri, diagnostics, version⟩ := by
  simp [lastSent?, List.filter_append]

namespace Session

variable {session : Session}

theorem settings_notify (services : session.services = .standard) (request : Request) :
    (session.notify request).2.settings = request.adjust session.settings := by
  cases request with
  | didChange uri version texts => cases texts <;> rfl
  | configure value => simp only [notify, services, Request.adjust]; rfl
  | _ => rfl

theorem settings_step (services : session.services = .standard) (request : Request) :
    (session.step request).2.2.settings = request.adjust session.settings := by
  have alike := session.alike_answer request
  rw [← alike.settings]
  exact settings_notify (alike.services.trans services) request

inductive Turn (session : Session) (request : Request) (uri : String) : Prop where
  | kept (silent : ∀ publication ∈ (session.step request).2.1, publication.uri ≠ uri)
      (same : (session.step request).2.2.documents.get? uri = session.documents.get? uri)
      (stays : request ≠ .didClose uri)
      (idle : ∀ document, session.documents.get? uri = some document →
        request.refreshes uri = false)
  | shown {document : Document} (refreshes : request.refreshes uri = true)
      (opened : (session.step request).2.2.documents.get? uri = some document)
      (sent : (session.step request).2.1 =
        [⟨uri, session.diagnosticsOf document, some document.version⟩])
  | closed (closes : request = .didClose uri)
      (absent : (session.step request).2.2.documents.get? uri = none)
      (sent : (session.step request).2.1 = [⟨uri, [], none⟩])

theorem turn_upsert {request : Request} {other uri text : String} {version : Int}
    (taken : (session.step request).2 =
      ([(session.upsert other version text).1], (session.upsert other version text).2))
    (refreshes : request.refreshes uri = (other == uri)) (stays : request ≠ .didClose uri) :
    session.Turn request uri := by
  have sent := congrArg Prod.fst taken
  have later := congrArg Prod.snd taken
  by_cases same : other = uri
  · obtain rfl := same
    refine .shown (by simp [refreshes]) ?_ sent
    rw [later]
    exact (Documents.get?_upsert ..).trans (if_pos rfl)
  · refine .kept ?_ ?_ stays fun _ _ => by simp [refreshes, same]
    · rw [sent]
      exact fun publication member => by rwa [List.mem_singleton.1 member]
    · rw [later]
      exact (Documents.get?_upsert ..).trans (if_neg (Ne.symm same))

theorem turn_of_nothing {request : Request} {uri : String}
    (sent : (session.step request).2.1 = []) (changes : request.changes = [])
    (stays : request ≠ .didClose uri) (idle : request.refreshes uri = false) :
    session.Turn request uri := by
  refine .kept (by simp [sent]) ?_ stays fun _ _ => idle
  rw [documents_step, changes, Documents.after_nil]

theorem turn (session : Session) (request : Request) (uri : String) :
    session.Turn request uri := by
  cases request with
  | didOpen other version text => exact turn_upsert rfl rfl (by simp)
  | didChange other version texts =>
    cases texts with
    | nil => exact turn_of_nothing rfl rfl (by simp) (by simp [Request.refreshes])
    | cons text texts => exact turn_upsert rfl (by simp [Request.refreshes]) (by simp)
  | didClose other =>
    by_cases same : other = uri
    · obtain rfl := same
      exact .closed rfl ((Documents.get?_remove ..).trans (if_pos rfl)) rfl
    · refine .kept ?_ ((Documents.get?_remove ..).trans (if_neg (Ne.symm same))) (by simp [same])
        fun _ _ => rfl
      exact fun publication member => by rwa [List.mem_singleton.1 member]
  | didSave other =>
    have sent : (session.step (.didSave other)).2.1 =
      ((session.documents.get? other).map (session.publish other)).toList := rfl
    by_cases same : other = uri
    · obtain rfl := same
      cases opened : session.documents.get? other with
      | none => exact .kept (by simp [sent, opened]) rfl (by simp) (by simp [opened])
      | some document =>
        refine .shown (by simp [Request.refreshes]) opened ?_
        rw [sent, opened]
        rfl
    · refine .kept ?_ rfl (by simp) fun _ _ => by simp [Request.refreshes, same]
      intro publication member
      rw [sent] at member
      obtain ⟨document, -, rfl⟩ := Option.map_eq_some_iff.1 (Option.mem_toList.1 member)
      exact same
  | _ => exact turn_of_nothing rfl rfl (by simp) rfl

def sent (session : Session) (history : List Request) : List Publication :=
  (session.run history).1.flatMap Prod.snd

theorem sent_concat (session : Session) (history : List Request) (request : Request) :
    session.sent (history ++ [request]) =
      session.sent history ++ ((session.run history).2.step request).2.1 := by
  simp [sent, run_concat]

/-- What was sent last about a document fits the document as it is. -/
structure Follows (session : Session) (history : List Request) (uri : String) : Prop where
  opened : ∀ document, (session.run history).2.documents.get? uri = some document →
    ∃ before request after, history = before ++ request :: after ∧
      request.refreshes uri = true ∧ (∀ later ∈ after, later.refreshes uri = false) ∧
        lastSent? uri (session.sent history) =
          some ⟨uri, (session.run before).2.diagnosticsOf document, some document.version⟩
  closed : (session.run history).2.documents.get? uri = none → .didClose uri ∈ history →
    lastSent? uri (session.sent history) = some ⟨uri, [], none⟩
  untouched : (session.run history).2.documents.get? uri = none → .didClose uri ∉ history →
    lastSent? uri (session.sent history) = none

theorem follows_run (empty : ∀ uri, session.documents.get? uri = none) (history : List Request)
    (uri : String) : session.Follows history uri := by
  induction history using List.reverseRecOn with
  | nil =>
    have absent : (session.run []).2.documents.get? uri = none := empty uri
    refine ⟨fun document opened => ?_, fun _ member => ?_, fun _ _ => rfl⟩
    · rw [absent] at opened
      cases opened
    · cases member
  | append_singleton history request ih =>
    have later : (session.run (history ++ [request])).2 =
      ((session.run history).2.step request).2.2 := by rw [run_concat]
    cases (session.run history).2.turn request uri with
    | kept silent same stays idle =>
      have last := lastSent?_append_of_silent (session.sent history) silent
      constructor
      · intro document opened
        rw [later, same] at opened
        obtain ⟨before, refresher, after, rfl, refreshes, quiet, sent⟩ := ih.opened document opened
        refine ⟨before, refresher, after ++ [request], by simp, refreshes, ?_, ?_⟩
        · intro other member
          rcases List.mem_append.1 member with member | member
          · exact quiet other member
          · rw [List.mem_singleton.1 member, idle document opened]
        · rw [sent_concat, last, sent]
      · intro absent member
        rw [later, same] at absent
        rw [sent_concat, last]
        apply ih.closed absent
        simpa [Ne.symm stays] using member
      · intro absent never
        rw [later, same] at absent
        rw [sent_concat, last]
        apply ih.untouched absent
        exact fun member => never (List.mem_append_left _ member)
    | @shown shown refreshes opened sent =>
      constructor
      · intro document found
        rw [later, opened] at found
        obtain rfl := Option.some.inj found
        refine ⟨history, request, [], rfl, refreshes, by simp, ?_⟩
        rw [sent_concat, sent]
        exact lastSent?_concat ..
      all_goals
        intro absent
        rw [later, opened] at absent
        cases absent
    | closed closes absent sent =>
      constructor
      · intro document found
        rw [later, absent] at found
        cases found
      · intro _ _
        rw [sent_concat, sent]
        exact lastSent?_concat ..
      · intro _ never
        exact absurd (by simp [closes]) never

namespace Fresh

theorem settings_run (fresh : session.Fresh) (history : List Request) :
    (session.run history).2.settings = settingsAfter history := by
  induction history using List.reverseRecOn with
  | nil => exact fresh.settings
  | append_singleton history request ih =>
    rw [run_concat, settings_step (fresh.services_run history), ih, settingsAfter, settingsAfter,
      List.foldl_append]
    rfl

theorem diagnosticsOf_run (fresh : session.Fresh) (history : List Request) {document : Document}
    (made : document.Made .standard session.documents.digest) :
    (session.run history).2.diagnosticsOf document =
      diagnosticsIn document.text (settingsAfter history) := by
  rw [diagnosticsOf, diagnosticsIn, made.parsed, made.index, fresh.services_run,
    fresh.settings_run]
  rfl

end Fresh

/-- The requests that have something to send: those that give a document a text, that close one, or
that save one that is open. -/
inductive Sends (session : Session) : Request → Prop where
  | didOpen (uri : String) (version : Int) (text : String) : Sends session (.didOpen uri version text)
  | didChange (uri : String) (version : Int) (text : String) (more : List String) :
      Sends session (.didChange uri version (text :: more))
  | didClose (uri : String) : Sends session (.didClose uri)
  | didSave {uri : String} {document : Document}
      (opened : session.documents.get? uri = some document) : Sends session (.didSave uri)

theorem sends_iff {request : Request} :
    session.Sends request ↔ (session.step request).2.1 ≠ [] := by
  constructor
  · intro sends
    cases sends with
    | didSave opened => simp [step, answer, notify, opened]
    | _ => simp [step, answer, notify]
  · intro sent
    cases request with
    | didOpen uri version text => exact .didOpen uri version text
    | didChange uri version texts =>
      cases texts with
      | nil => exact absurd rfl sent
      | cons text more => exact .didChange uri version text more
    | didClose uri => exact .didClose uri
    | didSave uri =>
      cases opened : session.documents.get? uri with
      | none => exact absurd (by simp [step, answer, notify, opened]) sent
      | some document => exact .didSave opened
    | _ => exact absurd rfl sent

theorem sent_step (session : Session) (request : Request) :
    (session.step request).2.1.length ≤ 1 ∧
      ∀ publication ∈ (session.step request).2.1, request.uri? = some publication.uri := by
  cases request with
  | didChange uri version texts => cases texts <;> simp [step, answer, notify, upsert, publish,
      Request.uri?]
  | didSave uri =>
    cases opened : session.documents.get? uri <;>
      simp [step, answer, notify, opened, publish, Request.uri?]
  | didOpen | didClose => simp [step, answer, notify, upsert, publish, Request.uri?]
  | _ => exact ⟨Nat.zero_le 1, fun _ member => absurd member List.not_mem_nil⟩

end Session

theorem published_exact :
    ∃ session, Session.start = .ok session ∧
      ∀ (digest : String → Digest) (history : List Request),
        let run := (session.hashing digest).run history
        let sent := (session.hashing digest).sent history
        (∀ uri document, run.2.documents.get? uri = some document →
          ∃ before request after, history = before ++ request :: after ∧
            request.refreshes uri = true ∧ (∀ later ∈ after, later.refreshes uri = false) ∧
              lastSent? uri sent =
                some ⟨uri, diagnosticsIn document.text (settingsAfter before),
                  some document.version⟩) ∧
          (∀ uri, run.2.documents.get? uri = none →
            (.didClose uri ∈ history → lastSent? uri sent = some ⟨uri, [], none⟩) ∧
              (.didClose uri ∉ history → lastSent? uri sent = none)) ∧
          ∀ request, let publications := (run.2.step request).2.1
            publications.length ≤ 1 ∧
              (∀ publication ∈ publications, request.uri? = some publication.uri) ∧
                (publications ≠ [] ↔ run.2.Sends request) := by
  obtain ⟨session, started, -, fresh⟩ := Session.exists_fresh
  refine ⟨session, started, fun digest history => ?_⟩
  have fresh := fresh digest
  have follows (uri : String) : (session.hashing digest).Follows history uri := by
    refine Session.follows_run (fun uri => ?_) history uri
    rw [fresh.documents]
    rfl
  refine ⟨?_, fun uri absent => ⟨(follows uri).closed absent, (follows uri).untouched absent⟩, ?_⟩
  · intro uri document opened
    obtain ⟨before, request, after, split, refreshes, quiet, last⟩ :=
      (follows uri).opened document opened
    refine ⟨before, request, after, split, refreshes, quiet, ?_⟩
    rw [last, fresh.diagnosticsOf_run before (fresh.made_run opened)]
  · intro request
    obtain ⟨once, named⟩ := Session.sent_step _ request
    exact ⟨once, named, Session.sends_iff.symm⟩

end FsmWorkbench
