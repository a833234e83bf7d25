import FsmWorkbench.Proofs.Editor.Sessions

set_option autoImplicit false

namespace FsmWorkbench

open Text

def hoverIn (text : String) (position : Position) : Option HoverReply :=
  (Model.parse text).toOption.bind fun model =>
    (offsetOf? text.toList position).bind fun offset =>
      (hoverAt? .standard model offset).map fun info =>
        ⟨info.markdown, extentOf text.toList info.span⟩

def storedTexts (history : List Request) : Set String :=
  {text | ∃ uri version, Documents.Change.upsert uri text version ∈ history.flatMap Request.changes}

theorem storedTexts_append_left (first second : List Request) :
    storedTexts first ⊆ storedTexts (first ++ second) := by
  rintro text ⟨uri, version, member⟩
  refine ⟨uri, version, ?_⟩
  rw [List.flatMap_append]
  exact List.mem_append_left _ member

namespace Session

variable {session : Session} {texts : Set String}

-- An entry says what its text shows, and the digest stands for the text.
def Recalls (session : Session) (texts : Set String) : Prop :=
  session.hovers.Holds fun key found =>
    ∃ text ∈ texts, key.digest = session.documents.digest text ∧ found = hoverIn text key.position

theorem Recalls.mono {more : Set String} (recalls : session.Recalls texts)
    (within : texts ⊆ more) : session.Recalls more := by
  intro entry member
  obtain ⟨text, known, same, found⟩ := recalls entry member
  exact ⟨text, within known, same, found⟩

theorem Recalls.of_eq {other : Session} (recalls : session.Recalls texts)
    (hovers : other.hovers = session.hovers)
    (digest : other.documents.digest = session.documents.digest) :
    other.Recalls texts := by
  rw [Recalls, hovers, digest]
  exact recalls

def Shows (session : Session) (texts : Set String) : Prop :=
  ∀ uri document, session.documents.get? uri = some document →
    document.text ∈ texts ∧ document.digest = session.documents.digest document.text ∧
      ∀ position, session.hoverOver document position = hoverIn document.text position

theorem hoverOver_eq (services : session.services = .standard) {document : Document}
    {digest : String → Digest} (made : document.Made .standard digest) (position : Position) :
    session.hoverOver document position = hoverIn document.text position := by
  rw [hoverOver, Document.currentModel?, made.parsed, made.index, services]
  simp only [LineIndex.offsetOf?_ofText]
  rfl

theorem hoverAt_recalls (recalls : session.Recalls texts) (shows : session.Shows texts)
    (distinct : Set.InjOn session.documents.digest texts) (uri : String) (position : Position) :
    (session.hoverAt uri position).1 =
        ((session.documents.get? uri).bind fun document => hoverIn document.text position) ∧
      (session.hoverAt uri position).2.Recalls texts := by
  rw [hoverAt]
  split
  · next closed => exact ⟨by rw [closed]; rfl, recalls⟩
  next document opened =>
  obtain ⟨stored, digest, shown⟩ := shows uri document opened
  rw [opened, Option.bind_some, digest]
  dsimp only
  split
  · next known hovers hit =>
    obtain ⟨⟨text, member, same, found⟩, kept⟩ := RecentCache.holds_use? recalls hit
    obtain rfl := distinct stored member same
    exact ⟨found, kept⟩
  · refine ⟨shown position, RecentCache.holds_put recalls ?_⟩
    exact ⟨document.text, stored, rfl, shown position⟩

theorem hovers_notify (session : Session) (request : Request) :
    (session.notify request).2.hovers = session.hovers := by
  cases request with
  | didChange uri version texts => cases texts <;> rfl
  | _ => rfl

theorem hovers_answer {request : Request}
    (other : ∀ uri position, request ≠ .hover uri position) :
    (session.answer request).2.hovers = session.hovers := by
  cases request with
  | hover uri position => exact absurd rfl (other uri position)
  | generate uri pretty =>
    simp only [answer, generate]
    split
    · rfl
    · split <;> rfl
  | format | complete | definition | references =>
    simp only [answer]
    split <;> rfl
  | _ => rfl

theorem recalls_step (recalls : session.Recalls texts) (shows : session.Shows texts)
    (distinct : Set.InjOn session.documents.digest texts) (request : Request) :
    (session.step request).2.2.Recalls texts := by
  have answered : (session.answer request).2.Recalls texts := by
    by_cases hover : ∃ uri position, request = .hover uri position
    · obtain ⟨uri, position, rfl⟩ := hover
      exact (hoverAt_recalls recalls shows distinct uri position).2
    · push Not at hover
      exact recalls.of_eq (hovers_answer hover)
        (congrArg Documents.digest (session.alike_answer request).documents)
  have digest : (session.step request).2.2.documents.digest =
      (session.answer request).2.documents.digest := by
    rw [digest_step, (session.alike_answer request).documents]
  exact answered.of_eq ((session.answer request).2.hovers_notify request) digest

namespace Fresh

theorem shows_run (fresh : session.Fresh) (history : List Request) :
    (session.run history).2.Shows (storedTexts history) := by
  intro uri document opened
  have made := fresh.made_run opened
  refine ⟨?_, ?_, hoverOver_eq (fresh.services_run history) made⟩
  · rw [fresh.documents_run] at opened
    obtain ⟨before, text, version, member, rfl⟩ := Documents.exists_refresh_of_after opened
    exact ⟨uri, version, member⟩
  · rw [digest_run, made.digest]

theorem recalls_run (fresh : session.Fresh) {history : List Request}
    (distinct : Set.InjOn session.documents.digest (storedTexts history)) :
    (session.run history).2.Recalls (storedTexts history) := by
  induction history using List.reverseRecOn with
  | nil =>
    have empty : session.Recalls (storedTexts []) := by
      rw [Recalls, fresh.hovers]
      exact RecentCache.holds_empty hoverCapacity _
    exact empty
  | append_singleton history request ih =>
    have within := storedTexts_append_left history [request]
    have earlier := distinct.mono within
    rw [run_concat]
    apply Recalls.mono _ within
    apply recalls_step (ih earlier) (fresh.shows_run history)
    rwa [digest_run]

theorem answer_hover (fresh : session.Fresh) {history : List Request}
    (distinct : Set.InjOn session.documents.digest (storedTexts history)) (uri : String)
    (position : Position) :
    ((session.run history).2.answer (.hover uri position)).1 =
      (((session.run history).2.documents.get? uri).bind fun document =>
        hoverIn document.text position).elim .nothing .hover := by
  have recalls := fresh.recalls_run distinct
  rw [← (hoverAt_recalls recalls (fresh.shows_run history) (by rwa [digest_run]) uri position).1]
  rfl

end Fresh

end Session

theorem hover_exact (digest : String → Digest) (history : List Request)
    (distinct : Set.InjOn digest (storedTexts history)) :
    ∃ session, Session.start = .ok session ∧
      ∀ before uri position after, history = before ++ .hover uri position :: after →
        let current := ((session.hashing digest).run before).2
        ((session.hashing digest).run history).1[before.length]? =
          some (((current.documents.get? uri).bind fun document =>
            hoverIn document.text position).elim .nothing .hover, []) := by
  obtain ⟨session, started, -, fresh⟩ := Session.exists_fresh
  refine ⟨session, started, ?_⟩
  rintro before uri position after rfl
  have earlier := distinct.mono (storedTexts_append_left before (.hover uri position :: after))
  have answered := (fresh digest).answer_hover earlier uri position
  rw [Session.run_append, List.getElem?_append_right (by rw [Session.length_run]),
    Session.length_run, Nat.sub_self]
  dsimp only
  rw [← answered]
  rfl

-- The entry for the first text is still there when the second one is asked about.
theorem hover_exact_replaced :
    let history : List Request := [.didOpen "a" 1 "state A", .hover "a" ⟨0, 6⟩,
      .didChange "a" 2 ["state B"], .hover "a" ⟨0, 6⟩]
    Set.InjOn Digest.mk (storedTexts history) ∧
      ∃ session, Session.start = .ok session ∧
        ((session.hashing Digest.mk).run history).1[3]? = some (.hover
          ⟨"```fsm\nstate B\n```\n\n**Incoming:** none\n**Outgoing:** none", ⟨⟨0, 6⟩, ⟨0, 7⟩⟩⟩, []) := by
  intro history
  have distinct : Set.InjOn Digest.mk (storedTexts history) := fun _ _ _ _ => Digest.mk.inj
  refine ⟨distinct, ?_⟩
  obtain ⟨session, started, replies⟩ := hover_exact Digest.mk history distinct
  refine ⟨session, started, ?_⟩
  have reply := replies [.didOpen "a" 1 "state A", .hover "a" ⟨0, 6⟩, .didChange "a" 2 ["state B"]]
    "a" ⟨0, 6⟩ [] rfl
  dsimp only at reply
  rw [(Session.fresh_of_start started _).documents_run] at reply
  have shown : hoverIn "state B" ⟨0, 6⟩ = some
      ⟨"```fsm\nstate B\n```\n\n**Incoming:** none\n**Outgoing:** none", ⟨⟨0, 6⟩, ⟨0, 7⟩⟩⟩ := by
    cbv
  have opened : ((Documents.fresh .standard Digest.mk).after ([.didOpen "a" 1 "state A",
      .hover "a" ⟨0, 6⟩, .didChange "a" 2 ["state B"]].flatMap Request.changes)).get? "a" =
      some (.refresh .standard Digest.mk (some (.refresh .standard Digest.mk none "state A" 1))
        "state B" 2) := rfl
  have digest : (session.hashing Digest.mk).documents.digest = Digest.mk := rfl
  rw [digest, opened, Option.bind_some] at reply
  exact reply.trans (by rw [Document.refresh, shown]; rfl)

end FsmWorkbench
