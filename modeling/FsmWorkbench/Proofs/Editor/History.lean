import FsmWorkbench.Editor.Documents
import FsmWorkbench.Proofs.Text.Indexing
import Mathlib

set_option autoImplicit false

namespace FsmWorkbench

open Text

-- What is kept beside a text is made from that text.
structure Document.Made (parser : Parser) (digest : String → Digest) (document : Document) :
    Prop where
  parsed : document.parsed = parser.parse document.text
  index : document.index = .ofText document.text.toList
  digest : document.digest = digest document.text

namespace Documents

inductive Change where
  | upsert (uri text : String) (version : Int)
  | remove (uri : String)
  deriving DecidableEq, Repr, Inhabited

def Change.uri : Change → String
  | .upsert uri _ _ => uri
  | .remove uri => uri

def perform (documents : Documents) : Change → Documents
  | .upsert uri text version => (documents.upsert uri text version).2
  | .remove uri => documents.remove uri

def after (documents : Documents) (history : List Change) : Documents :=
  history.foldl perform documents

@[simp] theorem after_nil (documents : Documents) : documents.after [] = documents := rfl

@[simp] theorem after_cons (documents : Documents) (change : Change) (history : List Change) :
    documents.after (change :: history) = (documents.perform change).after history := rfl

@[simp] theorem after_append (documents : Documents) (first second : List Change) :
    documents.after (first ++ second) = (documents.after first).after second :=
  List.foldl_append

@[simp] theorem parser_perform (documents : Documents) (change : Change) :
    (documents.perform change).parser = documents.parser := by
  cases change <;> rfl

@[simp] theorem parser_after (documents : Documents) (history : List Change) :
    (documents.after history).parser = documents.parser := by
  induction history generalizing documents with
  | nil => rfl
  | cons change history ih => rw [after_cons, ih, parser_perform]

@[simp] theorem digest_perform (documents : Documents) (change : Change) :
    (documents.perform change).digest = documents.digest := by
  cases change <;> rfl

@[simp] theorem digest_after (documents : Documents) (history : List Change) :
    (documents.after history).digest = documents.digest := by
  induction history generalizing documents with
  | nil => rfl
  | cons change history ih => rw [after_cons, ih, digest_perform]

theorem get?_perform_upsert (documents : Documents) (uri text : String) (version : Int) :
    (documents.perform (.upsert uri text version)).get? uri =
      some (Document.refresh documents.parser documents.digest (documents.get? uri) text version) := by
  rw [perform, get?_upsert, if_pos rfl]
  rfl

theorem get?_perform_remove (documents : Documents) (uri : String) :
    (documents.perform (.remove uri)).get? uri = none := by
  rw [perform, get?_remove, if_pos rfl]

theorem get?_perform_of_ne (documents : Documents) {change : Change} {uri : String}
    (other : change.uri ≠ uri) : (documents.perform change).get? uri = documents.get? uri := by
  cases change with
  | upsert changed text version =>
    have different : uri ≠ changed := Ne.symm other
    rw [perform, get?_upsert, if_neg different]
  | remove changed =>
    have different : uri ≠ changed := Ne.symm other
    rw [perform, get?_remove, if_neg different]

theorem get?_perform_cases {documents : Documents} {change : Change} {uri : String}
    {document : Document} (found : (documents.perform change).get? uri = some document) :
    (change.uri ≠ uri ∧ documents.get? uri = some document) ∨
      ∃ text version, change = .upsert uri text version ∧
        document =
          .refresh documents.parser documents.digest (documents.get? uri) text version := by
  by_cases same : change.uri = uri
  · subst same
    cases change with
    | upsert uri text version =>
      rw [Change.uri, get?_perform_upsert] at found
      exact .inr ⟨text, version, rfl, (Option.some.inj found).symm⟩
    | remove uri =>
      rw [Change.uri, get?_perform_remove] at found
      cases found
  · rw [get?_perform_of_ne documents same] at found
    exact .inl ⟨same, found⟩

theorem get?_after_of_ne {history : List Change} {uri : String}
    (others : ∀ change ∈ history, change.uri ≠ uri) (documents : Documents) :
    (documents.after history).get? uri = documents.get? uri := by
  induction history generalizing documents with
  | nil => rfl
  | cons change history ih =>
    rw [List.forall_mem_cons] at others
    rw [after_cons, ih others.2, get?_perform_of_ne documents others.1]

theorem get?_after_eq_none {history : List Change} {uri : String}
    (closed : ∀ text version, .upsert uri text version ∉ history) {documents : Documents}
    (absent : documents.get? uri = none) : (documents.after history).get? uri = none := by
  induction history generalizing documents with
  | nil => exact absent
  | cons change history ih =>
    apply ih
    · exact fun text version member => closed text version (List.mem_cons_of_mem _ member)
    · by_cases same : change.uri = uri
      · cases change with
        | upsert _ text version => exact absurd (same ▸ List.mem_cons_self) (closed text version)
        | remove _ =>
          obtain rfl := same
          exact get?_perform_remove documents _
      · rw [get?_perform_of_ne documents same, absent]

def fresh (parser : Parser) (digest : String → Digest) : Documents :=
  (empty parser).hashing digest

@[simp] theorem parser_fresh (parser : Parser) (digest : String → Digest) :
    (fresh parser digest).parser = parser := rfl

@[simp] theorem digest_fresh (parser : Parser) (digest : String → Digest) :
    (fresh parser digest).digest = digest := rfl

variable {parser : Parser} {digest : String → Digest}

theorem exists_refresh_of_after {history : List Change} {uri : String} {document : Document}
    (found : ((fresh parser digest).after history).get? uri = some document) :
    ∃ before text version, .upsert uri text version ∈ history ∧
      document = .refresh parser digest before text version := by
  induction history using List.reverseRecOn with
  | nil => cases found
  | append_singleton history change ih =>
    rw [after_append, after_cons, after_nil] at found
    rcases get?_perform_cases found with ⟨-, earlier⟩ | ⟨text, version, rfl, refreshed⟩
    · obtain ⟨before, text, version, member, made⟩ := ih earlier
      exact ⟨before, text, version, List.mem_append_left _ member, made⟩
    · rw [parser_after, digest_after, parser_fresh, digest_fresh] at refreshed
      exact ⟨_, text, version, by simp, refreshed⟩

theorem made_after {history : List Change} {uri : String} {document : Document}
    (found : ((fresh parser digest).after history).get? uri = some document) :
    document.Made parser digest := by
  obtain ⟨before, text, version, -, rfl⟩ := exists_refresh_of_after found
  exact ⟨rfl, rfl, rfl⟩

end Documents

namespace Document

variable (parser : Parser) (digest : String → Digest) (before : Option Document) (text : String)
  (version : Int)

-- While a text can be read, its own model is the last one.
theorem lastValid_refresh :
    (refresh parser digest before text version).lastValid =
      (refresh parser digest before text version).model? := by
  simp only [model?, currentModel?, refresh]
  cases parser.parse text <;> rfl

theorem model?_refresh :
    (refresh parser digest before text version).model? =
      (parser.parse text).toOption.or (before.bind model?) := by
  simp only [model?, currentModel?, refresh]
  cases parser.parse text <;> rfl

end Document

namespace Documents

def model? (documents : Documents) (uri : String) : Option Model :=
  (documents.get? uri).bind Document.model?

-- The model of the most recent text of a document that could be read since it was opened.
def LastRead (parser : Parser) (history : List Change) (uri : String) (model : Model) : Prop :=
  ∃ before text version after, history = before ++ .upsert uri text version :: after ∧
    parser.parse text = .ok model ∧ .remove uri ∉ after ∧
    ∀ later number, .upsert uri later number ∈ after → ∀ other, parser.parse later ≠ .ok other

variable {parser : Parser} {digest : String → Digest}

theorem LastRead.concat {history : List Change} {uri : String} {model : Model}
    (read : LastRead parser history uri model) {change : Change} (kept : change ≠ .remove uri)
    (unread : ∀ text version, change = .upsert uri text version →
      ∀ other, parser.parse text ≠ .ok other) :
    LastRead parser (history ++ [change]) uri model := by
  obtain ⟨before, text, version, after, rfl, parsed, opened, last⟩ := read
  refine ⟨before, text, version, after ++ [change], by simp, parsed, ?_, ?_⟩
  · simp [opened, Ne.symm kept]
  · intro later number member
    rcases List.mem_append.1 member with member | member
    · exact last later number member
    · exact unread later number (List.mem_singleton.1 member).symm

theorem model?_after_of_unread {history : List Change} {uri : String} {documents : Documents}
    (kept : .remove uri ∉ history)
    (unread : ∀ text version, .upsert uri text version ∈ history →
      ∀ other, documents.parser.parse text ≠ .ok other) :
    (documents.after history).model? uri = documents.model? uri := by
  induction history generalizing documents with
  | nil => rfl
  | cons change history ih =>
    rw [List.mem_cons, not_or] at kept
    have later : ∀ text version, .upsert uri text version ∈ history →
        ∀ other, (documents.perform change).parser.parse text ≠ .ok other := by
      rw [parser_perform]
      exact fun text version member => unread text version (List.mem_cons_of_mem change member)
    rw [after_cons, ih kept.2 later]
    by_cases same : change.uri = uri
    · cases change with
      | remove _ => exact absurd (congrArg Change.remove same.symm) kept.1
      | upsert _ text version =>
        obtain rfl := same
        have failed : (documents.parser.parse text).toOption = none := by
          cases parsed : documents.parser.parse text with
          | ok other => exact absurd parsed (unread text version List.mem_cons_self other)
          | error => rfl
        rw [model?, Change.uri, get?_perform_upsert, Option.bind_some, Document.model?_refresh,
          failed, Option.none_or]
        rfl
    · rw [model?, get?_perform_of_ne documents same, model?]

theorem model?_after_iff {history : List Change} {uri : String} {model : Model} :
    ((fresh parser digest).after history).model? uri = some model ↔
      LastRead parser history uri model := by
  constructor
  · intro found
    induction history using List.reverseRecOn with
    | nil => cases found
    | append_singleton history change ih =>
      rw [after_append, after_cons, after_nil, model?] at found
      obtain ⟨document, opened, read⟩ := Option.bind_eq_some_iff.1 found
      rcases get?_perform_cases opened with ⟨other, earlier⟩ | ⟨text, version, rfl, refreshed⟩
      · have known := ih (Option.bind_eq_some_iff.2 ⟨document, earlier, read⟩)
        refine known.concat ?_ ?_
        · rintro rfl
          exact other rfl
        · rintro _ _ rfl
          exact absurd rfl other
      · rw [refreshed, parser_after, parser_fresh, Document.model?_refresh] at read
        cases parsed : parser.parse text with
        | ok current =>
          rw [parsed] at read
          obtain rfl := Option.some.inj read
          exact ⟨history, text, version, [], rfl, parsed, by simp, by simp⟩
        | error =>
          rw [parsed] at read
          refine (ih read).concat (by simp) ?_
          rintro _ _ ⟨⟩ other
          simp [parsed]
  · rintro ⟨before, text, version, after, rfl, parsed, kept, last⟩
    rw [after_append, after_cons, model?_after_of_unread kept (by simpa using last), model?,
      get?_perform_upsert, Option.bind_some, Document.model?_refresh, parser_after, parser_fresh,
      parsed]
    rfl

theorem exists_last_upsert {history : List Change} {uri : String}
    (opened : ∃ text version, .upsert uri text version ∈ history) :
    ∃ before text version after, history = before ++ .upsert uri text version :: after ∧
      ∀ later number, .upsert uri later number ∉ after := by
  induction history using List.reverseRecOn with
  | nil => simp at opened
  | append_singleton history change ih =>
    by_cases last : ∃ text version, change = .upsert uri text version
    · obtain ⟨text, version, rfl⟩ := last
      exact ⟨history, text, version, [], rfl, by simp⟩
    · have earlier : ∃ text version, .upsert uri text version ∈ history := by
        obtain ⟨text, version, member⟩ := opened
        refine ⟨text, version, (List.mem_append.1 member).resolve_right fun only => ?_⟩
        exact last ⟨text, version, (List.mem_singleton.1 only).symm⟩
      obtain ⟨before, text, version, after, rfl, none⟩ := ih earlier
      refine ⟨before, text, version, after ++ [change], by simp, ?_⟩
      intro later number member
      rcases List.mem_append.1 member with member | member
      · exact none later number member
      · exact last ⟨later, number, (List.mem_singleton.1 member).symm⟩

theorem get?_after_last_upsert (before : List Change) (text : String) (version : Int)
    {after : List Change} {uri : String}
    (last : ∀ later number, .upsert uri later number ∉ after)
    (kept : .remove uri ∉ after) :
    ((fresh parser digest).after (before ++ .upsert uri text version :: after)).get? uri =
      some (Document.refresh parser digest (((fresh parser digest).after before).get? uri) text
        version) := by
  have others : ∀ change ∈ after, change.uri ≠ uri := by
    rintro (⟨_, later, number⟩ | _) member rfl
    · exact last later number member
    · exact kept member
  rw [after_append, after_cons, get?_after_of_ne others, get?_perform_upsert, parser_after,
    digest_after, parser_fresh, digest_fresh]

theorem get?_after_eq_none_iff {history : List Change} {uri : String} :
    ((fresh parser digest).after history).get? uri = none ↔
      (∀ text version, .upsert uri text version ∉ history) ∨
        ∃ before text version after, history = before ++ .upsert uri text version :: after ∧
          (∀ later number, .upsert uri later number ∉ after) ∧ .remove uri ∈ after := by
  constructor
  · intro absent
    by_cases opened : ∃ text version, .upsert uri text version ∈ history
    · obtain ⟨before, text, version, after, rfl, last⟩ := exists_last_upsert opened
      refine .inr ⟨before, text, version, after, rfl, last, ?_⟩
      by_contra kept
      rw [get?_after_last_upsert before text version last kept] at absent
      cases absent
    · push Not at opened
      exact .inl opened
  · rintro (closed | ⟨before, text, version, after, rfl, last, removed⟩)
    · exact get?_after_eq_none closed rfl
    · obtain ⟨first, second, rfl⟩ := List.append_of_mem removed
      simp only [after_append, after_cons]
      apply get?_after_eq_none
      · exact fun later number member => last later number (by simp [member])
      · exact get?_perform_remove ..

theorem history_exact (parser : Parser) (digest : String → Digest) (history : List Change)
    (uri : String) :
    let documents := (fresh parser digest).after history
    (documents.get? uri = none ↔
      (∀ text version, .upsert uri text version ∉ history) ∨
        ∃ before text version after, history = before ++ .upsert uri text version :: after ∧
          (∀ later number, .upsert uri later number ∉ after) ∧ .remove uri ∈ after) ∧
      (∀ before text version after, history = before ++ .upsert uri text version :: after →
        (∀ later number, .upsert uri later number ∉ after) → .remove uri ∉ after →
          ∃ document, documents.get? uri = some document ∧ document.text = text ∧
            document.version = version ∧ document.parsed = parser.parse text ∧
            document.digest = digest text ∧ document.index = .ofText text.toList ∧
            (∀ offset, document.index.positionOf offset = Text.positionOf text.toList offset) ∧
            (∀ position, document.index.offsetOf? position =
              Text.offsetOf? text.toList position) ∧
            (∀ model, document.lastValid = some model ↔ LastRead parser history uri model) ∧
            document.model? =
              match parser.parse text with
              | .ok model => some model
              | .error _ => document.lastValid) ∧
      (∃ uris : List String, uris.Nodup ∧ uris.length = documents.size ∧
        ∀ other, other ∈ uris ↔ ∃ document, documents.get? other = some document) ∧
      ∀ change : Change, change.uri ≠ uri →
        (documents.perform change).get? uri = documents.get? uri := by
  intro documents
  refine ⟨get?_after_eq_none_iff, ?_, ?_, ?_⟩
  · rintro before text version after rfl last kept
    have found := @get?_after_last_upsert parser digest before text version _ _ last kept
    refine ⟨_, found, rfl, rfl, rfl, rfl, rfl, LineIndex.positionOf_eq _, LineIndex.offsetOf?_eq _,
      ?_, ?_⟩
    · intro model
      rw [Document.lastValid_refresh, ← model?_after_iff, model?, found, Option.bind_some]
    · rw [Document.lastValid_refresh, Document.model?_refresh]
      cases parser.parse text <;> rfl
  · refine ⟨documents.opened.keys, documents.opened.nodup, List.length_map .., fun other => ?_⟩
    rw [Table.mem_keys_iff, Option.isSome_iff_exists]
    rfl
  · exact fun change other => get?_perform_of_ne documents other

theorem history_exact_broken :
    let history : List Change := [.upsert "a" "state A" 1, .upsert "b" "state B" 1,
      .upsert "a" "state" 2, .remove "b"]
    ∃ document, ((fresh ⟨Model.parse⟩ Digest.mk).after history).get? "a" =
        some document ∧ document.version = 2 ∧ document.digest = ⟨"state"⟩ ∧
      document.index.offsetOf? ⟨0, 5⟩ = some 5 ∧
      document.lastValid = some ⟨none, [⟨⟨"A", ⟨6, 7⟩⟩, false, ⟨0, 7⟩⟩], []⟩ := by
  intro history
  have earlier : Model.parse "state A" = .ok ⟨none, [⟨⟨"A", ⟨6, 7⟩⟩, false, ⟨0, 7⟩⟩], []⟩ := by
    cbv
  have broken : Model.parse "state" = .error ⟨5, [.name], 1, 6⟩ := by cbv
  obtain ⟨-, opened, -⟩ := history_exact ⟨Model.parse⟩ Digest.mk history "a"
  obtain ⟨document, found, -, version, -, digest, -, -, offsetOf, lastValid, -⟩ :=
    opened [.upsert "a" "state A" 1, .upsert "b" "state B" 1] "state" 2 [.remove "b"] rfl
      (by simp) (by simp)
  refine ⟨document, found, version, digest, (offsetOf _).trans (by decide), (lastValid _).2 ?_⟩
  refine ⟨[], "state A", 1, _, rfl, earlier, by simp, ?_⟩
  intro later number member other
  obtain ⟨rfl, -⟩ : later = "state" ∧ number = 2 := by simpa using member
  simp [broken]

end Documents

end FsmWorkbench
