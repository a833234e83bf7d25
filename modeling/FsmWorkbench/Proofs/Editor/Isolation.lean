import FsmWorkbench.Proofs.Editor.Publishing
import FsmWorkbench.Proofs.Editor.Recollection

set_option autoImplicit false

namespace FsmWorkbench

theorem Container.Runs.shutdown {container : Container} {injector : Injector Service Workshop}
    (runs : container.Runs injector) : container.shutdown.Runs injector := by
  obtain ⟨rfl, obliging, kept⟩ := runs
  exact ⟨rfl, obliging, Injector.verdict_shutdown container.state kept⟩

namespace Request

def concerns (uri : String) : Request → Bool
  | .configure _ => true
  | request => request.uri? == some uri

theorem uri?_of_concerns {uri : String} {request : Request}
    (concerned : request.concerns uri = true) (other : ∀ settings, request ≠ .configure settings) :
    request.uri? = some uri := by
  cases request with
  | configure settings => exact absurd rfl (other settings)
  | _ => simpa [concerns] using concerned

theorem uri?_of_mem_changes {request : Request} {change : Documents.Change}
    (member : change ∈ request.changes) : request.uri? = some change.uri := by
  cases request with
  | didOpen uri version text =>
    obtain rfl := List.mem_singleton.1 member
    rfl
  | didChange uri version texts =>
    obtain ⟨text, -, rfl⟩ := List.mem_map.1 member
    rfl
  | didClose uri =>
    obtain rfl := List.mem_singleton.1 member
    rfl
  | _ => cases member

theorem adjust_of_not_concerns {uri : String} {request : Request}
    (other : request.concerns uri = false) (settings : Settings) :
    request.adjust settings = settings := by
  cases request with
  | configure value => cases other
  | _ => rfl

end Request

theorem Documents.get?_after_congr {first second : Documents}
    (parser : first.parser = second.parser) (digest : first.digest = second.digest) {uri : String}
    (same : first.get? uri = second.get? uri) (history : List Change) :
    (first.after history).get? uri = (second.after history).get? uri := by
  induction history generalizing first second with
  | nil => exact same
  | cons change history ih =>
    apply ih
    · rw [parser_perform, parser_perform, parser]
    · rw [digest_perform, digest_perform, digest]
    · by_cases about : change.uri = uri
      · obtain rfl := about
        cases change with
        | upsert changed text version =>
          rw [Change.uri] at same ⊢
          rw [get?_perform_upsert, get?_perform_upsert, parser, digest, same]
        | remove changed =>
          rw [Change.uri, get?_perform_remove, get?_perform_remove]
      · rw [get?_perform_of_ne _ about, get?_perform_of_ne _ about, same]

namespace Session

variable {session other : Session} {digest : String → Digest} {texts moreTexts : Set String}
  {uri : String}

structure View where
  document : Option Document
  settings : Settings

def view (session : Session) (uri : String) : View :=
  ⟨session.documents.get? uri, session.settings⟩

-- A session in working order: what it has kept of hovers and of its container can be relied on.
structure Works (session : Session) (digest : String → Digest) (texts : Set String) : Prop where
  services : session.services = .standard
  parser : session.documents.parser = .standard
  container : session.container.Runs editorSet.build
  shows : session.Shows texts
  recalls : session.Recalls texts
  distinct : Set.InjOn digest texts
  hashes : session.documents.digest = digest

def generatedFrom (pretty : Bool) (document : Document) : Generated where
  version := document.version
  outcome :=
    match document.parsed with
    | .ok model => .ok ((Generator.json .standard).generate model pretty)
    | .error error => .error ("Parse error: " ++ error.display)

-- The generator is made anew for each request, also behind a shutdown.
theorem answer_generate (container : session.container.Runs editorSet.build) (pretty : Bool) :
    (session.answer (.generate uri pretty)).1 =
        ((session.documents.get? uri).map (generatedFrom pretty)).elim .nothing .generated ∧
      (session.answer (.generate uri pretty)).2.container.Runs editorSet.build := by
  obtain ⟨later, resolved, runs⟩ := container.exists_resolveSlot editor_equipped.generator
  simp only [answer]
  split
  · next closed => exact ⟨by rw [closed]; rfl, container⟩
  · next document opened =>
    simp only [generate, resolved]
    exact ⟨by rw [opened]; rfl, runs⟩

theorem container_step (container : session.container.Runs editorSet.build) (request : Request) :
    (session.step request).2.2.container.Runs editorSet.build := by
  cases request with
  | generate uri pretty => exact (answer_generate container pretty).2
  | hover uri position =>
    simp only [step, answer, notify, hoverAt]
    split
    · exact container
    · split <;> exact container
  | didChange uri version texts => cases texts <;> exact container
  | format | complete | definition | references =>
    simp only [step, answer, notify]
    split <;> exact container
  | shutdown => exact container.shutdown
  | _ => exact container

theorem container_run (container : session.container.Runs editorSet.build)
    (history : List Request) : (session.run history).2.container.Runs editorSet.build := by
  induction history generalizing session with
  | nil => exact container
  | cons request history ih => exact ih (container_step container request)

theorem answer_congr (works : session.Works digest texts) (worksOther : other.Works digest moreTexts)
    (same : session.view uri = other.view uri) {request : Request}
    (concerned : request.concerns uri = true) :
    (session.answer request).1 = (other.answer request).1 := by
  obtain ⟨document, settings⟩ := View.mk.inj same
  have services := works.services.trans worksOther.services.symm
  by_cases configures : ∃ value, request = .configure value
  · obtain ⟨value, rfl⟩ := configures
    rfl
  push Not at configures
  have named := Request.uri?_of_concerns concerned configures
  cases request with
  | hover about position =>
    obtain rfl := Option.some.inj named
    have first := (hoverAt_recalls works.recalls works.shows
      (works.hashes ▸ works.distinct) about position).1
    have second := (hoverAt_recalls worksOther.recalls worksOther.shows
      (worksOther.hashes ▸ worksOther.distinct) about position).1
    rw [← document] at second
    exact congrArg (fun found : Option HoverReply => found.elim .nothing Reply.hover)
      (first.trans second.symm)
  | generate about pretty =>
    obtain rfl := Option.some.inj named
    rw [(answer_generate works.container pretty).1, (answer_generate worksOther.container pretty).1,
      document]
  | format about tabSize insertSpaces =>
    obtain rfl := Option.some.inj named
    simp only [answer, document, settings, services]
    split <;> rfl
  | complete about position =>
    obtain rfl := Option.some.inj named
    simp only [answer, completionsAt, document, services]
    split <;> rfl
  | definition about position | references about position declaration =>
    obtain rfl := Option.some.inj named
    simp only [answer, document]
    split <;> rfl
  | _ => rfl

theorem diagnosticsOf_congr (services : session.services = other.services)
    (settings : session.settings = other.settings) (document : Document) :
    session.diagnosticsOf document = other.diagnosticsOf document := by
  rw [diagnosticsOf, diagnosticsOf, services, settings]

theorem upsert_congr (works : session.Works digest texts) (worksOther : other.Works digest moreTexts)
    (same : session.view uri = other.view uri) (version : Int) (text : String) :
    (session.upsert uri version text).1 = (other.upsert uri version text).1 := by
  obtain ⟨document, settings⟩ := View.mk.inj same
  have services := works.services.trans worksOther.services.symm
  have parser := works.parser.trans worksOther.parser.symm
  have digest := works.hashes.trans worksOther.hashes.symm
  simp only [upsert, publish, Documents.upsert, document, parser, digest]
  exact congrArg (Publication.mk uri · _) (diagnosticsOf_congr services settings _)

theorem sent_congr (works : session.Works digest texts) (worksOther : other.Works digest moreTexts)
    (same : session.view uri = other.view uri) {request : Request}
    (concerned : request.concerns uri = true) :
    (session.step request).2.1 = (other.step request).2.1 := by
  obtain ⟨document, settings⟩ := View.mk.inj same
  have services := works.services.trans worksOther.services.symm
  by_cases configures : ∃ value, request = .configure value
  · obtain ⟨value, rfl⟩ := configures
    rfl
  push Not at configures
  have named := Request.uri?_of_concerns concerned configures
  cases request with
  | didOpen about version text =>
    obtain rfl := Option.some.inj named
    exact congrArg ([·]) (upsert_congr works worksOther same version text)
  | didChange about version texts =>
    obtain rfl := Option.some.inj named
    cases texts with
    | nil => rfl
    | cons text rest => exact congrArg ([·]) (upsert_congr works worksOther same version text)
  | didSave about =>
    obtain rfl := Option.some.inj named
    simp only [step, answer, notify, document]
    congr 2
    funext opened
    exact congrArg (Publication.mk about · _) (diagnosticsOf_congr services settings opened)
  | didClose about =>
    obtain rfl := Option.some.inj named
    rfl
  | _ => rfl

theorem view_step_congr (works : session.Works digest texts) (worksOther : other.Works digest moreTexts)
    (same : session.view uri = other.view uri) (request : Request) :
    (session.step request).2.2.view uri = (other.step request).2.2.view uri := by
  obtain ⟨document, settings⟩ := View.mk.inj same
  have parser := works.parser.trans worksOther.parser.symm
  have digest := works.hashes.trans worksOther.hashes.symm
  rw [view, view, documents_step, documents_step, settings_step works.services,
    settings_step worksOther.services, settings, Documents.get?_after_congr parser digest document]

-- What does not concern a document goes on behind its back.
theorem view_step_of_not_concerns (services : session.services = .standard) {request : Request}
    (unconcerned : request.concerns uri = false) :
    (session.step request).2.2.view uri = session.view uri := by
  have others : ∀ change ∈ request.changes, change.uri ≠ uri := by
    rintro change member rfl
    have named := Request.uri?_of_mem_changes member
    cases request <;> simp_all [Request.concerns]
  rw [view, documents_step, settings_step services, Request.adjust_of_not_concerns unconcerned,
    Documents.get?_after_of_ne others, view]

def steps (session : Session) (history : List Request) :
    List (Request × Reply × List Publication) :=
  history.zip (session.run history).1

theorem steps_concat (session : Session) (history : List Request) (request : Request) :
    session.steps (history ++ [request]) =
      session.steps history ++
        [(request, ((session.run history).2.step request).1,
          ((session.run history).2.step request).2.1)] := by
  rw [steps, run_concat, List.zip_append (session.length_run history).symm, steps]
  rfl

namespace Fresh

theorem works_run (fresh : session.Fresh) (container : session.container.Runs editorSet.build)
    {history : List Request}
    (distinct : Set.InjOn session.documents.digest (storedTexts history)) :
    (session.run history).2.Works session.documents.digest (storedTexts history) where
  services := fresh.services_run history
  parser := by
    rw [fresh.documents_run, Documents.parser_after]
    rfl
  container := container_run container history
  shows := fresh.shows_run history
  recalls := fresh.recalls_run distinct
  distinct := distinct
  hashes := digest_run session history

end Fresh

theorem storedTexts_filter (keep : Request → Bool) (history : List Request) :
    storedTexts (history.filter keep) ⊆ storedTexts history := by
  rintro text ⟨uri, version, member⟩
  obtain ⟨request, kept, change⟩ := List.mem_flatMap.1 member
  exact ⟨uri, version, List.mem_flatMap.2 ⟨request, (List.mem_filter.1 kept).1, change⟩⟩

-- A run and the run of the requests that concern a document go side by side: behind each request
-- the document has the same view of both, and so its next step is the same.
theorem Fresh.steps_filter (fresh : session.Fresh)
    (container : session.container.Runs editorSet.build) {history : List Request}
    (distinct : Set.InjOn session.documents.digest (storedTexts history)) (uri : String) :
    session.steps (history.filter (Request.concerns uri)) =
        (session.steps history).filter (fun step => step.1.concerns uri) ∧
      (session.run (history.filter (Request.concerns uri))).2.view uri =
        (session.run history).2.view uri := by
  induction history using List.reverseRecOn with
  | nil => exact ⟨rfl, rfl⟩
  | append_singleton history request ih =>
    have earlier := distinct.mono (storedTexts_append_left history [request])
    obtain ⟨steps, view⟩ := ih earlier
    have works := fresh.works_run container earlier
    have alone := fresh.works_run container
      (earlier.mono (storedTexts_filter (Request.concerns uri) history))
    rw [List.filter_append, steps_concat, List.filter_append, run_concat]
    cases concerned : request.concerns uri with
    | true =>
      have kept : [request].filter (Request.concerns uri) = [request] := by simp [concerned]
      rw [kept, steps_concat, run_concat, steps]
      have reply : ((session.run (history.filter (Request.concerns uri))).2.step request).1 =
          ((session.run history).2.step request).1 := answer_congr alone works view concerned
      have sent := sent_congr alone works view concerned
      refine ⟨?_, view_step_congr alone works view request⟩
      rw [reply, sent]
      simp [concerned]
    | false =>
      have dropped : [request].filter (Request.concerns uri) = [] := by simp [concerned]
      rw [dropped, List.append_nil, steps]
      refine ⟨by simp [concerned], ?_⟩
      rw [view]
      exact (view_step_of_not_concerns works.services concerned).symm

end Session

theorem isolation_exact (digest : String → Digest) (history : List Request)
    (distinct : Set.InjOn digest (storedTexts history)) (uri : String) :
    ∃ session, Session.start = .ok session ∧
      let run := session.hashing digest
      run.steps (history.filter (Request.concerns uri)) =
        (run.steps history).filter fun step => step.1.concerns uri := by
  obtain ⟨session, started, services, documents, settings, container, hovers⟩ :=
    Session.exists_start_eq_ok
  have fresh : (session.hashing digest).Fresh :=
    ⟨services, congrArg (Documents.hashing · digest) documents, settings, hovers⟩
  exact ⟨session, started, (fresh.steps_filter container distinct uri).1⟩

-- The generator is still there for one document when the other has been closed after a shutdown.
theorem isolation_exact_shutdown :
    let history : List Request := [.didOpen "a" 1 "state A", .didOpen "b" 1 "state A",
      .hover "b" ⟨0, 6⟩, .hover "a" ⟨0, 6⟩, .shutdown, .didClose "b", .generate "a" false]
    Set.InjOn Digest.mk (storedTexts history) ∧
      ∃ session, Session.start = .ok session ∧
        let run := session.hashing Digest.mk
        run.steps [.didOpen "a" 1 "state A", .hover "a" ⟨0, 6⟩, .generate "a" false] =
          (run.steps history).filter fun step => step.1.concerns "a" := by
  intro history
  have distinct : Set.InjOn Digest.mk (storedTexts history) := fun _ _ _ _ => Digest.mk.inj
  exact ⟨distinct, isolation_exact Digest.mk history distinct "a"⟩

end FsmWorkbench
