import FsmWorkbench.Proofs.Editor.Suggesting
import FsmWorkbench.Proofs.Notation.Preceding

set_option autoImplicit false

namespace FsmWorkbench

open Text

-- The keyword is the last word of a line, and nothing has been typed behind it.
def Keyword.Leads (word : Keyword) (line : List Char) : Prop :=
  ∃ front gap, line = front ++ (word.text.toList ++ gap) ∧
    (∀ c ∈ front.getLast?, isSeparator c = true) ∧ gap ≠ [] ∧ ∀ c ∈ gap, isSeparator c = true

namespace Keyword

variable {word : Keyword} {line : List Char}

theorem Leads.getLast?_finishedWords (leads : word.Leads line) :
    (finishedWords line).getLast? = some word.text := by
  obtain ⟨front, gap, rfl, behind, some, separate⟩ := leads
  obtain ⟨c, gap, rfl⟩ := List.exists_cons_of_ne_nil some
  obtain ⟨first, others⟩ := List.forall_mem_cons.1 separate
  have none : finishedWords gap = [] :=
    finishedWords_of_blank fun d later => isBlank_of_isSeparator (others d later)
  have last : finishedWords (word.text.toList ++ c :: gap) = [word.text] := by
    rw [finishedWords_word word.visible_text.1 word.visible_text.2 (isBlank_of_isSeparator first),
      none, String.ofList_toList]
  rcases List.eq_nil_or_concat front with rfl | ⟨front, d, rfl⟩
  · rw [List.nil_append, last, List.getLast?_singleton]
  · have blank : isBlank d = true := isBlank_of_isSeparator (behind d (by simp))
    rw [List.concat_eq_append, List.append_assoc, List.singleton_append,
      finishedWords_append_blank blank, last, List.getLast?_concat]

end Keyword

theorem Row.leads_or_separate {rest lead : List Char} {lexemes : List Lexeme}
    (row : Row rest lead lexemes) {front : List Lexeme} {former : String} {word : Keyword}
    (ends : lexemes <:+ front ++ [.name former, .keyword word])
    (goes : ∃ c ∈ rest.head?, isWordPart c = true) :
    word.Leads lead ∨ ∀ c ∈ lead, isSeparator c = true := by
  rcases List.eq_nil_or_concat lexemes with rfl | ⟨more, last, rfl⟩
  · exact .inr row.separate_of_nil
  left
  have split : front ++ [.name former, .keyword word] =
      (front ++ [.name former]) ++ [Lexeme.keyword word] := by simp
  rw [List.concat_eq_append] at row ends
  rw [split] at ends
  obtain ⟨above, same⟩ := ends
  rw [← List.append_assoc] at same
  obtain ⟨before, keyword⟩ := List.append_inj' same rfl
  obtain rfl := List.singleton_inj.1 keyword
  have words : ∀ lexeme ∈ more.getLast?, lexeme.IsWord := by
    intro lexeme last
    have named := congrArg List.getLast? before
    rw [List.getLast?_append, Option.mem_def.1 last, List.getLast?_concat] at named
    obtain rfl := Option.some.inj named
    trivial
  obtain ⟨others, gap, rfl, apart, separate, stops⟩ := row.exists_last trivial words
  refine ⟨others, gap, rfl, apart, ?_, separate⟩
  rintro rfl
  obtain ⟨c, head, part⟩ := goes
  rw [stops c head] at part
  cases part

namespace CompletionContext

theorem ofWords?_of_getLast? {words : List String} {word : Keyword}
    (last : words.getLast? = some word.text) (refers : word = .source ∨ word = .target) :
    ofWords? words = some .stateName := by
  have some : words ≠ [] := by
    rintro rfl
    cases last
  unfold ofWords?
  rw [if_neg some, if_pos]
  rw [last]
  rcases refers with rfl | rfl
  · exact .inl rfl
  · exact .inr rfl

end CompletionContext

namespace OffersStates

variable {model : Model}

theorem nil_iff : OffersStates model [] ↔ model.states = [] := by
  constructor
  · intro offers
    rw [List.eq_nil_iff_forall_not_mem]
    intro state member
    cases (offers.exact state.name.text).2 ⟨state, member, rfl⟩
  · intro none
    exact ⟨List.forall_mem_nil _, .nil, fun name => by simp [none]⟩

theorem not_openers : ¬OffersStates model (model.openers.map CompletionItem.ofKeyword) := by
  intro offers
  have member : Keyword.state ∈ model.openers := List.mem_append_right _ List.mem_cons_self
  cases offers.states _ (List.mem_map_of_mem member)

end OffersStates

theorem Model.mem_names_of_references {model : Model} {transition : TransitionDecl}
    (member : transition ∈ model.transitions) {word : Keyword} {name : Name}
    (refers : (word, name) ∈ transition.references) :
    name ∈ model.names.map Occurrence.name := by
  have used : ⟨.state, name, false⟩ ∈ transition.occurrences := by
    rcases TransitionDecl.mem_references_iff.1 refers with ⟨-, rfl⟩ | ⟨-, rfl⟩ <;>
      simp [TransitionDecl.occurrences, TransitionDecl.endpoints]
  exact List.mem_map_of_mem
    (List.mem_append_right _ (List.mem_flatMap.2 ⟨transition, member, used⟩))

section Line

variable {line : List Char} {word : Keyword} {model : Model}

theorem suggestions_of_leads (leads : word.Leads line) (plain : ¬['/', '/'] <:+: line)
    (refers : word = .source ∨ word = .target) :
    OffersStates model (suggestions line (some model)) := by
  have context := CompletionContext.ofWords?_of_getLast? leads.getLast?_finishedWords refers
  rw [suggestions_of_context plain context]
  exact CompletionContext.offersStates_offered model

theorem suggestions_of_separate (separate : ∀ c ∈ line, isSeparator c = true) :
    suggestions line (some model) = model.openers.map CompletionItem.ofKeyword := by
  have plain : ¬['/', '/'] <:+: line := fun slashes =>
    absurd (separate '/' (slashes.subset List.mem_cons_self)) (by decide)
  have none : finishedWords line = [] :=
    finishedWords_of_blank fun c member => isBlank_of_isSeparator (separate c member)
  have context : CompletionContext.ofWords? (finishedWords line) = some .declaration := by
    rw [none]
    rfl
  rw [suggestions_of_context plain context, CompletionContext.offered_declaration]

theorem offersStates_suggestions_iff (refers : word = .source ∨ word = .target)
    (stands : word.Leads line ∨ ∀ c ∈ line, isSeparator c = true) :
    OffersStates model (suggestions line (some model)) ↔
      word.Leads line ∧ (['/', '/'] <:+: line → model.states = []) := by
  by_cases slashes : ['/', '/'] <:+: line
  · have leads : word.Leads line := by
      refine stands.resolve_right fun separate => ?_
      exact absurd (separate '/' (slashes.subset List.mem_cons_self)) (by decide)
    rw [suggestions_of_slashes slashes, OffersStates.nil_iff]
    simp [leads, slashes]
  · simp only [slashes, false_implies, and_true]
    constructor
    · intro offers
      refine stands.resolve_right fun separate => ?_
      rw [suggestions_of_separate separate] at offers
      exact OffersStates.not_openers offers
    · exact fun leads => suggestions_of_leads leads slashes refers

end Line

theorem completing_iff {text : String} {model : Model} (parsed : Model.parse text = .ok model)
    {transition : TransitionDecl} (member : transition ∈ model.transitions) {word : Keyword}
    {name : Name} (refers : (word, name) ∈ transition.references) :
    ∃ front rest, text.toList = front ++ (name.text.toList ++ rest) ∧
      name.span.start = size front ∧
      let line := lastLine front
      let items := complete text name.span.start (some model)
      (OffersStates model items ↔
          word.Leads line ∧ (['/', '/'] <:+: line → model.states = [])) ∧
        (word.Leads line → ['/', '/'] <:+: line → items = []) ∧
        (¬word.Leads line → (∀ c ∈ line, isSeparator c = true) ∧
          items = model.openers.map CompletionItem.ofKeyword) := by
  obtain ⟨tokens, former, span, later, stream⟩ := Model.joins_of_parse parsed member refers
  obtain ⟨front, rest, whole, start, proceeds⟩ := TokenStream.exists_proceeds stream
  rw [Nat.zero_add] at start
  refine ⟨front, rest, whole, start, ?_⟩
  rw [start, complete_append whole]
  have stands : word.Leads (lastLine front) ∨ ∀ c ∈ lastLine front, isSeparator c = true := by
    have identifier := (Model.standsIn_of_parse parsed
      (Model.mem_names_of_references member refers)).identifier
    obtain ⟨first, more, spelled, starts, -⟩ := identifier
    have goes : (name.text.toList ++ rest).head? = some first := by simp [spelled]
    have visible : first ≠ '\n' := by
      rintro rfl
      cases starts
    rw [Lexeme.spelling, whole] at proceeds
    obtain ⟨others, lexemes, same, row⟩ := proceeds.exists_row ⟨first, goes, visible⟩
    have ends : lexemes <:+ tokens.map Token.lexeme ++ [.name former.text, .keyword word] :=
      ⟨others, by simpa using same.symm⟩
    exact row.leads_or_separate ends ⟨first, goes, isWordPart_of_isWordStart starts⟩
  have reference : word = .source ∨ word = .target :=
    (TransitionDecl.mem_references_iff.1 refers).imp And.left And.left
  refine ⟨offersStates_suggestions_iff reference stands, fun _ => suggestions_of_slashes,
    fun other => ?_⟩
  have separate := stands.resolve_left other
  exact ⟨separate, suggestions_of_separate separate⟩

theorem completing_iff_on_one_line :
    let text := "state A\ntransition t from A to A"
    ∃ model transition, Model.parse text = .ok model ∧ transition ∈ model.transitions ∧
      (.source, ⟨"A", ⟨26, 27⟩⟩) ∈ transition.references ∧
      OffersStates model (complete text 26 (some model)) := by
  intro text
  let transition : TransitionDecl :=
    ⟨⟨"t", ⟨19, 20⟩⟩, ⟨"A", ⟨26, 27⟩⟩, ⟨"A", ⟨31, 32⟩⟩, none, ⟨8, 32⟩⟩
  let model : Model := ⟨none, [⟨⟨"A", ⟨6, 7⟩⟩, false, ⟨0, 8⟩⟩], [transition]⟩
  have parsed : Model.parse text = .ok model := by decide +kernel
  have member : transition ∈ model.transitions := List.mem_singleton.2 rfl
  have refers : (.source, ⟨"A", ⟨26, 27⟩⟩) ∈ transition.references := List.mem_cons_self
  obtain ⟨front, rest, split, sized, offers, -⟩ := completing_iff parsed member refers
  obtain rfl : front = "state A\ntransition t from ".toList := by
    have whole : text.toList =
        "state A\ntransition t from ".toList ++ ("A".toList ++ " to A".toList) := by decide +kernel
    exact eq_of_size_eq (split.symm.trans whole) (sized.symm.trans (by decide +kernel))
  have line : lastLine "state A\ntransition t from ".toList = "transition t from ".toList := by
    decide +kernel
  rw [line] at offers
  refine ⟨model, transition, parsed, member, refers, offers.2 ⟨?_, fun slashes => ?_⟩⟩
  · have last : "transition t ".toList.getLast? = some ' ' := by decide +kernel
    refine ⟨"transition t ".toList, [' '], by decide +kernel, ?_, by decide, by simp [isSeparator]⟩
    rw [last]
    simp [isSeparator]
  · exact absurd (hasComment_iff.2 slashes) (by decide +kernel)

-- The keyword ends its line, and the name that it introduces begins the next one.
theorem complete_behind_line_feed :
    let text := "state A\ntransition t from\nA to A"
    ∃ model transition, Model.parse text = .ok model ∧ transition ∈ model.transitions ∧
      transition.source.span.start = 26 ∧ ¬OffersStates model (complete text 26 (some model)) ∧
      complete text 26 (some model) =
        [Keyword.machine, .state, .transition].map CompletionItem.ofKeyword := by
  intro text
  let transition : TransitionDecl :=
    ⟨⟨"t", ⟨19, 20⟩⟩, ⟨"A", ⟨26, 27⟩⟩, ⟨"A", ⟨31, 32⟩⟩, none, ⟨8, 32⟩⟩
  let model : Model := ⟨none, [⟨⟨"A", ⟨6, 7⟩⟩, false, ⟨0, 8⟩⟩], [transition]⟩
  have split : text.toList = "state A\ntransition t from\n".toList ++ "A to A".toList := by
    decide +kernel
  have sized : size "state A\ntransition t from\n".toList = 26 := by decide +kernel
  have line : lastLine "state A\ntransition t from\n".toList = [] := by decide +kernel
  have items : complete text 26 (some model) = model.openers.map CompletionItem.ofKeyword := by
    rw [← sized, complete_append split, line, suggestions_of_separate (List.forall_mem_nil _)]
  refine ⟨model, transition, by decide +kernel, List.mem_singleton.2 rfl, rfl, ?_, items⟩
  rw [items]
  exact OffersStates.not_openers

end FsmWorkbench
