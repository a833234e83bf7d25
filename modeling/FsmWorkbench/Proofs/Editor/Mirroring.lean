import FsmWorkbench.Proofs.Editor.Sessions

set_option autoImplicit false

namespace FsmWorkbench

namespace Request

def retypes (uri : String) : Request → Bool
  | .didOpen about _ _ => about == uri
  | .didChange about _ texts => about == uri && !texts.isEmpty
  | .didClose about => about == uri
  | _ => false

def typed (uri : String) (text? : Option String) : Request → Option String
  | .didOpen about _ text => if about = uri then some text else text?
  | .didChange about _ texts =>
    if about = uri then texts.foldl (fun _ text => some text) text? else text?
  | .didClose about => if about = uri then none else text?
  | _ => text?

theorem typed_of_not_retypes {uri : String} {request : Request}
    (other : request.retypes uri = false) (text? : Option String) :
    request.typed uri text? = text? := by
  cases request with
  | didOpen about version text | didClose about =>
    have different : about ≠ uri := by simpa [retypes] using other
    exact if_neg different
  | didChange about version texts =>
    rw [typed]
    split
    · next same =>
      have none : texts = [] := by simpa [retypes, same] using other
      rw [none, List.foldl_nil]
    · rfl
  | _ => rfl

theorem ne_uri_of_mem_changes {uri : String} {request : Request}
    (other : request.retypes uri = false) : ∀ change ∈ request.changes, change.uri ≠ uri := by
  intro change member
  cases request with
  | didOpen about version text | didClose about =>
    rw [List.mem_singleton.1 member]
    simpa [retypes, Documents.Change.uri] using other
  | didChange about version texts =>
    obtain ⟨text, first, rfl⟩ := List.mem_map.1 member
    have some : texts ≠ [] := by
      rintro rfl
      cases first
    simpa [retypes, some, Documents.Change.uri] using other
  | _ => cases member

end Request

def typedText? (uri : String) (history : List Request) : Option String :=
  history.foldl (Request.typed uri) none

theorem typedText?_concat (uri : String) (history : List Request) (request : Request) :
    typedText? uri (history ++ [request]) = request.typed uri (typedText? uri history) := by
  rw [typedText?, List.foldl_append]
  rfl

-- Of the texts of one request only the last is left.
theorem foldl_typed (first : String) (more : List String) (text? : Option String) :
    (first :: more).foldl (fun _ text => some text) text? = (first :: more).getLast? := by
  induction more generalizing first text? with
  | nil => rfl
  | cons second more ih => exact ih second (some first)

theorem split_of_concat {α : Type} {before after history : List α} {x last : α}
    (split : history ++ [last] = before ++ x :: after) :
    after = [] ∧ last = x ∨ ∃ rest, after = rest ++ [last] ∧ history = before ++ x :: rest := by
  rcases List.eq_nil_or_concat after with rfl | ⟨rest, latest, rfl⟩
  · obtain ⟨-, same⟩ := List.append_inj' split rfl
    exact .inl ⟨rfl, List.singleton_inj.1 same⟩
  · rw [List.concat_eq_append, ← List.cons_append, ← List.append_assoc] at split
    obtain ⟨earlier, same⟩ := List.append_inj' split rfl
    exact .inr ⟨rest, by rw [List.concat_eq_append, same], earlier⟩

-- The request that gave a document its text last starts and ends with one text.
def Steadfast (uri : String) (history : List Request) : Prop :=
  ∀ before version texts after, history = before ++ .didChange uri version texts :: after →
    (∀ later ∈ after, later.retypes uri = false) → texts.head? = texts.getLast?

namespace Steadfast

variable {uri : String} {history : List Request} {request : Request}

theorem concat_iff_of_not_retypes (other : request.retypes uri = false) :
    Steadfast uri (history ++ [request]) ↔ Steadfast uri history := by
  constructor
  · rintro steadfast before version texts after rfl quiet
    refine steadfast before version texts (after ++ [request]) (by simp) fun later member => ?_
    rcases List.mem_append.1 member with member | member
    · exact quiet later member
    · rwa [List.mem_singleton.1 member]
  · intro steadfast before version texts after split quiet
    rcases split_of_concat split with ⟨-, rfl⟩ | ⟨rest, rfl, earlier⟩
    · obtain rfl : texts = [] := by simpa [Request.retypes] using other
      rfl
    · exact steadfast before version texts rest earlier fun later member =>
        quiet later (List.mem_append_left _ member)

theorem concat_iff_of_retypes (about : request.retypes uri = true) :
    Steadfast uri (history ++ [request]) ↔
      ∀ version texts, request = .didChange uri version texts → texts.head? = texts.getLast? := by
  constructor
  · rintro steadfast version texts rfl
    exact steadfast history version texts [] rfl (by simp)
  · intro only before version texts after split quiet
    rcases split_of_concat split with ⟨-, same⟩ | ⟨rest, rfl, -⟩
    · exact only version texts same
    · have never := quiet request (by simp)
      rw [about] at never
      cases never

end Steadfast

namespace Session

variable {session : Session}

def text? (session : Session) (uri : String) : Option String :=
  (session.documents.get? uri).map Document.text

theorem text?_step_of_not_retypes {uri : String} {request : Request}
    (other : request.retypes uri = false) :
    (session.step request).2.2.text? uri = session.text? uri := by
  have others := Request.ne_uri_of_mem_changes other
  rw [text?, documents_step, Documents.get?_after_of_ne others, text?]

theorem text?_didOpen (uri : String) (version : Int) (text : String) :
    (session.step (.didOpen uri version text)).2.2.text? uri = some text := by
  rw [text?, documents_step, Request.changes, Documents.after_cons, Documents.after_nil,
    Documents.get?_perform_upsert]
  rfl

theorem text?_didChange (uri : String) (version : Int) (first : String) (more : List String) :
    (session.step (.didChange uri version (first :: more))).2.2.text? uri = some first :=
  text?_didOpen uri version first

theorem text?_didClose (uri : String) :
    (session.step (.didClose uri)).2.2.text? uri = none := by
  rw [text?, documents_step, Request.changes, Documents.after_cons, Documents.after_nil,
    Documents.get?_perform_remove]
  rfl

theorem text?_step_iff {uri : String} {request : Request} (about : request.retypes uri = true)
    (text? : Option String) :
    (session.step request).2.2.text? uri = request.typed uri text? ↔
      ∀ version texts, request = .didChange uri version texts → texts.head? = texts.getLast? := by
  cases request with
  | didOpen other version text =>
    obtain rfl : other = uri := by simpa [Request.retypes] using about
    simp [text?_didOpen, Request.typed]
  | didClose other =>
    obtain rfl : other = uri := by simpa [Request.retypes] using about
    simp [text?_didClose, Request.typed]
  | didChange other version texts =>
    obtain ⟨rfl, filled⟩ : other = uri ∧ texts ≠ [] := by simpa [Request.retypes] using about
    obtain ⟨first, more, rfl⟩ := List.exists_cons_of_ne_nil filled
    rw [text?_didChange, Request.typed, if_pos rfl, foldl_typed]
    constructor
    · rintro same _ _ ⟨⟩
      exact same
    · exact fun same => same version (first :: more) rfl
  | _ => cases about

theorem text?_run_of_quiet {uri : String} {history : List Request}
    (quiet : ∀ request ∈ history, request.retypes uri = false) :
    (session.run history).2.text? uri = session.text? uri := by
  induction history generalizing session with
  | nil => rfl
  | cons request history ih =>
    rw [List.forall_mem_cons] at quiet
    exact (ih quiet.2).trans (text?_step_of_not_retypes quiet.1)

theorem text?_run_didChange {uri : String} (before : List Request) (version : Int) (first : String)
    (more : List String) {after : List Request}
    (quiet : ∀ later ∈ after, later.retypes uri = false) :
    (session.run (before ++ .didChange uri version (first :: more) :: after)).2.text? uri =
      some first := by
  rw [run_append]
  exact (text?_run_of_quiet quiet).trans (text?_didChange uri version first more)

theorem text?_run_iff (empty : ∀ uri, session.documents.get? uri = none) (history : List Request)
    (uri : String) :
    (session.run history).2.text? uri = typedText? uri history ↔ Steadfast uri history := by
  induction history using List.reverseRecOn with
  | nil =>
    have absent : session.text? uri = none := by rw [text?, empty]; rfl
    exact iff_of_true absent fun before _ _ _ split => by simp at split
  | append_singleton history request ih =>
    rw [run_concat, typedText?_concat]
    cases about : request.retypes uri with
    | false =>
      rw [text?_step_of_not_retypes about, Request.typed_of_not_retypes about, ih,
        Steadfast.concat_iff_of_not_retypes about]
    | true => rw [text?_step_iff about, Steadfast.concat_iff_of_retypes about]

end Session

theorem mirroring_iff (digest : String → Digest) (history : List Request) (uri : String) :
    ∃ session, Session.start = .ok session ∧
      let text? := ((session.hashing digest).run history).2.text? uri
      (text? = typedText? uri history ↔
        ∀ before version texts after, history = before ++ .didChange uri version texts :: after →
          (∀ later ∈ after, later.retypes uri = false) → texts.head? = texts.getLast?) ∧
        ∀ before version first more after,
          history = before ++ .didChange uri version (first :: more) :: after →
            (∀ later ∈ after, later.retypes uri = false) → text? = some first := by
  obtain ⟨session, started, -, fresh⟩ := Session.exists_fresh
  refine ⟨session, started, Session.text?_run_iff (fresh digest).get?_eq_none history uri, ?_⟩
  rintro before version first more after rfl quiet
  exact Session.text?_run_didChange before version first more quiet

theorem text?_behind_two_texts :
    ∃ session, Session.start = .ok session ∧
      let history : List Request :=
        [.didOpen "a" 1 "state A", .didChange "a" 2 ["state B", "state C"]]
      (session.run history).2.text? "a" = some "state B" ∧
        typedText? "a" history = some "state C" := by
  obtain ⟨session, started, -⟩ := Session.exists_fresh
  refine ⟨session, started, ?_, rfl⟩
  rw [← List.singleton_append, Session.run_concat]
  exact Session.text?_didChange "a" 2 "state B" ["state C"]

end FsmWorkbench
