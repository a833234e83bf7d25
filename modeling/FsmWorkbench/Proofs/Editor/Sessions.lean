import FsmWorkbench.Editor.Session
import FsmWorkbench.Proofs.Editor.History
import FsmWorkbench.Proofs.Services.Provision

set_option autoImplicit false

namespace FsmWorkbench

def EditorServices.standard : EditorServices where
  language := .standard
  validator := .advising .core
  formatter := .layout .standard
  completion := .keywords
  hover := .declarations .standard

def Request.changes : Request → List Documents.Change
  | .didOpen uri version text => [.upsert uri text version]
  | .didChange uri version texts => texts.head?.toList.map fun text => .upsert uri text version
  | .didClose uri => [.remove uri]
  | _ => []

namespace Session

structure Alike (session other : Session) : Prop where
  services : other.services = session.services
  documents : other.documents = session.documents
  settings : other.settings = session.settings

theorem alike_answer (session : Session) (request : Request) :
    session.Alike (session.answer request).2 := by
  cases request with
  | hover uri position =>
    simp only [answer, hoverAt]
    split
    · exact ⟨rfl, rfl, rfl⟩
    · split <;> exact ⟨rfl, rfl, rfl⟩
  | generate uri pretty =>
    simp only [answer, generate]
    split
    · exact ⟨rfl, rfl, rfl⟩
    · split <;> exact ⟨rfl, rfl, rfl⟩
  | format | complete | definition | references =>
    simp only [answer]
    split <;> exact ⟨rfl, rfl, rfl⟩
  | _ => exact ⟨rfl, rfl, rfl⟩

theorem documents_notify (session : Session) (request : Request) :
    (session.notify request).2.documents = session.documents.after request.changes := by
  cases request with
  | didChange uri version texts => cases texts <;> rfl
  | _ => rfl

theorem services_notify (session : Session) (request : Request) :
    (session.notify request).2.services = session.services := by
  cases request with
  | didChange uri version texts => cases texts <;> rfl
  | _ => rfl

theorem documents_step (session : Session) (request : Request) :
    (session.step request).2.2.documents = session.documents.after request.changes := by
  rw [step]
  dsimp only
  rw [documents_notify, (session.alike_answer request).documents]

theorem services_step (session : Session) (request : Request) :
    (session.step request).2.2.services = session.services := by
  rw [step]
  dsimp only
  rw [services_notify, (session.alike_answer request).services]

theorem digest_step (session : Session) (request : Request) :
    (session.step request).2.2.documents.digest = session.documents.digest := by
  rw [documents_step, Documents.digest_after]

-- What each step keeps in view, a run does.
theorem run_keeps {α : Type} {view : Session → α}
    (each : ∀ session request, view (step session request).2.2 = view session) (session : Session)
    (history : List Request) : view (session.run history).2 = view session := by
  induction history generalizing session with
  | nil => rfl
  | cons request history ih => exact (ih (session.step request).2.2).trans (each session request)

theorem run_append (session : Session) (first second : List Request) :
    session.run (first ++ second) =
      ((session.run first).1 ++ ((session.run first).2.run second).1,
        ((session.run first).2.run second).2) := by
  induction first generalizing session with
  | nil => rfl
  | cons request first ih => simp only [List.cons_append, run, ih]

theorem run_concat (session : Session) (history : List Request) (request : Request) :
    session.run (history ++ [request]) =
      ((session.run history).1 ++
          [(((session.run history).2.step request).1, ((session.run history).2.step request).2.1)],
        ((session.run history).2.step request).2.2) :=
  session.run_append history [request]

theorem length_run (session : Session) (history : List Request) :
    (session.run history).1.length = history.length := by
  induction history generalizing session with
  | nil => rfl
  | cons request history ih => simp only [run, List.length_cons, ih]

theorem documents_run (session : Session) (history : List Request) :
    (session.run history).2.documents =
      session.documents.after (history.flatMap Request.changes) := by
  induction history generalizing session with
  | nil => rfl
  | cons request history ih =>
    rw [List.flatMap_cons, Documents.after_append, ← documents_step, ← ih]
    rfl

theorem services_run (session : Session) (history : List Request) :
    (session.run history).2.services = session.services :=
  run_keeps services_step session history

theorem digest_run (session : Session) (history : List Request) :
    (session.run history).2.documents.digest = session.documents.digest := by
  rw [documents_run, Documents.digest_after]

theorem exists_start_eq_ok :
    ∃ session, Session.start = .ok session ∧ session.services = .standard ∧
      session.documents = .empty .standard ∧ session.settings = .standard ∧
      session.container.Runs editorSet.build ∧ session.hovers = .empty hoverCapacity := by
  obtain ⟨container, started, runs⟩ := exists_editor_eq_ok
  obtain ⟨_, language, runs⟩ := runs.exists_resolveSlot editor_equipped.language
  obtain ⟨_, documents, runs⟩ := runs.exists_resolveSlot editor_documents
  obtain ⟨_, validator, runs⟩ := runs.exists_resolveSlot editor_equipped.validator
  obtain ⟨_, formatter, runs⟩ := runs.exists_resolveSlot editor_equipped.formatter
  obtain ⟨_, completion, runs⟩ := runs.exists_resolveSlot editor_completion
  obtain ⟨_, hover, runs⟩ := runs.exists_resolveSlot editor_hover
  rw [start, started]
  dsimp only
  rw [ofContainer]
  simp only [language, documents, validator, formatter, completion, hover]
  exact ⟨_, rfl, rfl, rfl, rfl, runs, rfl⟩

structure Fresh (session : Session) : Prop where
  services : session.services = .standard
  documents : session.documents = .fresh .standard session.documents.digest
  settings : session.settings = .standard
  hovers : session.hovers = .empty hoverCapacity

theorem exists_fresh :
    ∃ session, Session.start = .ok session ∧ session.Fresh ∧
      ∀ digest, (session.hashing digest).Fresh := by
  obtain ⟨session, started, services, documents, settings, -, hovers⟩ := exists_start_eq_ok
  refine ⟨session, started, ⟨services, by rw [documents]; rfl, settings, hovers⟩, fun digest => ?_⟩
  exact ⟨services, congrArg (Documents.hashing · digest) documents, settings, hovers⟩

theorem fresh_of_start {session : Session} (started : Session.start = .ok session)
    (digest : String → Digest) : (session.hashing digest).Fresh := by
  obtain ⟨same, again, -, fresh⟩ := exists_fresh
  obtain rfl := Except.ok.inj (started.symm.trans again)
  exact fresh digest

namespace Fresh

variable {session : Session}

theorem get?_eq_none (fresh : session.Fresh) (uri : String) :
    session.documents.get? uri = none := by
  rw [fresh.documents]
  rfl

theorem services_run (fresh : session.Fresh) (history : List Request) :
    (session.run history).2.services = .standard :=
  (session.services_run history).trans fresh.services

theorem documents_run (fresh : session.Fresh) (history : List Request) :
    (session.run history).2.documents =
      (Documents.fresh .standard session.documents.digest).after
        (history.flatMap Request.changes) := by
  rw [Session.documents_run, ← fresh.documents]

theorem made_run (fresh : session.Fresh) {history : List Request} {uri : String}
    {document : Document} (opened : (session.run history).2.documents.get? uri = some document) :
    document.Made .standard session.documents.digest := by
  rw [fresh.documents_run] at opened
  exact Documents.made_after opened

end Fresh

theorem made_of_opened {session : Session}
    (fresh : session.documents = .fresh .standard session.documents.digest)
    {history : List Request} {request : Request} {uri : String} {document : Document}
    (opened : ((session.run history).2.step request).2.2.documents.get? uri = some document) :
    document.Made .standard session.documents.digest := by
  rw [documents_step, documents_run, fresh, ← Documents.after_append] at opened
  exact Documents.made_after opened

structure Publishes (session : Session) (request : Request) (publication : Publication)
    (document : Document) : Prop where
  sent : publication ∈ (session.step request).2.1
  opened : (session.step request).2.2.documents.get? publication.uri = some document

theorem published_upsert {session : Session} {uri text : String} {version : Int}
    {document : Document}
    (opened : (session.upsert uri version text).2.documents.get? uri = some document) :
    (session.upsert uri version text).1.diagnostics = session.diagnosticsOf document := by
  have stored : (session.documents.upsert uri text version).2.get? uri = some document := opened
  rw [Documents.get?_upsert, if_pos rfl] at stored
  obtain rfl := Option.some.inj stored
  rfl

theorem Publishes.diagnostics {session : Session} {request : Request} {publication : Publication}
    {document : Document} (publishes : session.Publishes request publication document) :
    publication.diagnostics = session.diagnosticsOf document := by
  obtain ⟨sent, opened⟩ := publishes
  cases request with
  | didOpen uri version text =>
    obtain rfl := List.mem_singleton.1 sent
    exact published_upsert opened
  | didChange uri version texts =>
    cases texts with
    | nil => cases sent
    | cons text texts =>
      obtain rfl := List.mem_singleton.1 sent
      exact published_upsert opened
  | didClose uri =>
    obtain rfl := List.mem_singleton.1 sent
    have closed : (session.documents.remove uri).get? uri = some document := opened
    rw [Documents.get?_remove, if_pos rfl] at closed
    cases closed
  | didSave uri =>
    obtain ⟨saved, known, rfl⟩ := Option.map_eq_some_iff.1 (Option.mem_toList.1 sent)
    obtain rfl := Option.some.inj (known.symm.trans opened)
    rfl
  | _ => cases sent

theorem exists_publishes_didOpen (session : Session) (uri : String) (version : Int)
    (text : String) :
    ∃ publication document, session.Publishes (.didOpen uri version text) publication document ∧
      publication.uri = uri ∧ document.text = text := by
  have opened : (session.documents.upsert uri text version).2.get? uri =
      some (session.documents.upsert uri text version).1 := by
    rw [Documents.get?_upsert, if_pos rfl]
  exact ⟨_, _, ⟨List.mem_singleton_self _, opened⟩, rfl, rfl⟩

end Session

end FsmWorkbench
