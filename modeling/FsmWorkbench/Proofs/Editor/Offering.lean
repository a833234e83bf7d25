import FsmWorkbench.Proofs.Editor.Suggesting
import FsmWorkbench.Proofs.Notation.Preceding

set_option autoImplicit false

namespace FsmWorkbench

open Text

namespace Keyword

-- The tokens of a declaration that begins with the keyword and has one name for all it names.
def declared (word : Keyword) (name : String) : List Lexeme :=
  match word with
  | .machine => (Program.mk (some name) []).lexemes
  | .state => (Item.state name false).lexemes
  | .transition => (Item.transition ⟨name, name, name, none⟩).lexemes
  | .source | .target | .initial | .guard => [.keyword word]

def declaring (word : Keyword) (name : String) : String :=
  match word with
  | .machine => "machine " ++ name
  | .state => "state " ++ name
  | .transition => "transition " ++ name ++ " from " ++ name ++ " to " ++ name
  | .source | .target | .initial | .guard => word.text

theorem toList_declaring (word : Keyword) (name : String) :
    (word.declaring name).toList = spaced (word.declared name) := by
  unfold declaring declared
  cases word <;> simp [Program.lexemes, Item.lexemes, Lexeme.spelling, text]

theorem writable_declared (word : Keyword) {name : String}
    (writable : (Lexeme.name name).Writable) :
    ∀ lexeme ∈ word.declared name, lexeme.Writable := by
  have keyword (word : Keyword) : (Lexeme.keyword word).Writable := trivial
  cases word <;> simp [declared, Program.lexemes, Item.lexemes, keyword, writable]

theorem proceeds_declaring (word : Keyword) {name : String}
    (writable : (Lexeme.name name).Writable) :
    Proceeds (word.declaring name).toList (word.declared name) [] := by
  have cut := Proceeds.of_cuts (cuts_spaced 0 (word.writable_declared writable))
  rwa [lexemesOf_map, ← toList_declaring] at cut

end Keyword

namespace Program

variable {program : Program}

theorem outline_eq_nil_iff :
    program.outline.states = [] ∧ program.outline.transitions = [] ↔ program.items = [] := by
  constructor
  · rintro ⟨states, transitions⟩
    rw [List.eq_nil_iff_forall_not_mem]
    intro item member
    cases item with
    | state name initial => cases List.filterMap_eq_nil_iff.1 states _ member
    | transition outline => cases List.filterMap_eq_nil_iff.1 transitions _ member
  · intro none
    simp [outline, none]

def openers (program : Program) : List Keyword :=
  (if program.machine.isSome then [] else [Keyword.machine]) ++ [.state, .transition]

theorem exists_lexemes_append_declared_iff {word : Keyword} (opens : word ∈ program.openers)
    (name : String) :
    (∃ other : Program, program.lexemes ++ word.declared name = other.lexemes) ↔
      (word = .machine → program.items = []) := by
  obtain ⟨machine, items⟩ := program
  have further (item : Item) : ∃ other : Program,
      (Program.mk machine items).lexemes ++ item.lexemes = other.lexemes :=
    ⟨⟨machine, items ++ [item]⟩, by simp [lexemes]⟩
  rcases List.mem_append.1 opens with first | later
  · cases machine with
    | some named => cases first
    | none =>
      obtain rfl := List.mem_singleton.1 first
      refine Iff.trans ?_ (forall_prop_of_true rfl).symm
      constructor
      · rintro ⟨⟨_ | other, others⟩, same⟩
        · refine absurd ?_ (machine_not_mem_lexemes others)
          have second : Lexeme.keyword .machine ∈ Keyword.machine.declared name :=
            List.mem_cons_self
          exact (show _ = others.flatMap Item.lexemes from same) ▸ List.mem_append_right _ second
        · rcases items with _ | ⟨_ | ⟨_, _, _, _⟩, more⟩
          · rfl
          · cases same
          · cases same
      · rintro rfl
        exact ⟨⟨some name, []⟩, rfl⟩
  · simp only [List.mem_cons, List.not_mem_nil, or_false] at later
    rcases later with rfl | rfl
    · exact iff_of_true (further (.state name false)) (fun same => by cases same)
    · exact iff_of_true (further (.transition ⟨name, name, name, none⟩)) (fun same => by cases same)

end Program

namespace Model

theorem openers_eq {model : Model} {program : Program}
    (outlined : program.outline = model.outline) : model.openers = program.openers := by
  have machine : program.machine = model.machine.map fun machine => machine.name.text :=
    congrArg Outline.machine outlined
  rw [openers, Program.openers, machine, Option.isSome_map]

end Model

theorem complete_of_ended {text : String} (ended : Ended text.toList) (model : Model) :
    complete text (size text.toList) (some model) = model.openers.map CompletionItem.ofKeyword := by
  have last : lastLine text.toList = [] := by
    have line := lastLine_append ended (List.not_mem_nil (a := '\n'))
    rwa [List.append_nil] at line
  have context : CompletionContext.ofWords? (finishedWords []) = some .declaration := rfl
  rw [complete_append (List.append_nil _).symm, last, suggestions_of_context (by simp) context,
    CompletionContext.offered_declaration]

theorem offering_iff {text : String} {model : Model} (parsed : Model.parse text = .ok model)
    (ended : Ended text.toList) {name : String} (writable : (Lexeme.name name).Writable) :
    complete text (size text.toList) (some model) =
        model.openers.map CompletionItem.ofKeyword ∧
      ∀ word ∈ model.openers,
        (∃ other, Model.parse (text ++ word.declaring name) = .ok other) ↔
          (word = .machine → model.states = [] ∧ model.transitions = []) := by
  refine ⟨complete_of_ended ended model, fun word offered => ?_⟩
  obtain ⟨program, proceeds, outlined⟩ := Model.exists_program parsed
  have plain : model.states = [] ∧ model.transitions = [] ↔ program.items = [] := by
    rw [← Program.outline_eq_nil_iff, outlined]
    simp [Model.outline]
  have whole : Proceeds (text ++ word.declaring name).toList
      (program.lexemes ++ word.declared name) [] := by
    rw [← List.append_nil text.toList, ← List.nil_append []] at proceeds
    obtain ⟨first, second, same, lines, row⟩ := proceeds.lines ended
    cases row
    rw [same, List.append_nil, String.toList_append]
    exact (lines _).trans (word.proceeds_declaring writable)
  obtain ⟨complete, lexemes⟩ := Proceeds.end_iff.1 whole
  rw [Model.exists_parse_iff, TokenStream.ofText, lexemes, plain,
    ← Program.exists_lexemes_append_declared_iff (Model.openers_eq outlined ▸ offered) name]
  exact and_iff_right complete

theorem offering_iff_behind_state :
    Ended "state A\n".toList ∧ (Lexeme.name "X").Writable ∧
      (∃ other, Model.parse "state A\ntransition X from X to X" = .ok other) ∧
      ¬∃ other, Model.parse "state A\nmachine X" = .ok other := by
  let model : Model := ⟨none, [⟨⟨"A", ⟨6, 7⟩⟩, false, ⟨0, 8⟩⟩], []⟩
  have parsed : Model.parse "state A\n" = .ok model := by decide +kernel
  have ended : Ended "state A\n".toList := .inr ⟨"state A".toList, by decide +kernel⟩
  have writable : (Lexeme.name "X").Writable :=
    ⟨⟨'X', [], by decide +kernel, by decide, List.forall_mem_nil _⟩, fun word => by
      cases word <;> decide⟩
  obtain ⟨-, reads⟩ := offering_iff parsed ended writable
  have transition := (reads .transition (by decide)).2 fun same => by cases same
  refine ⟨ended, writable, transition, fun read => ?_⟩
  obtain ⟨none, -⟩ := (reads .machine (by decide)).1 read rfl
  cases none

-- A machine is offered behind a state, but none can be declared there.
theorem complete_machine_behind_state :
    ∃ model, Model.parse "state A\n" = .ok model ∧
      CompletionItem.ofKeyword .machine ∈ complete "state A\n" 8 (some model) ∧
      ∀ other, Model.parse "state A\nmachine X" ≠ .ok other := by
  let model : Model := ⟨none, [⟨⟨"A", ⟨6, 7⟩⟩, false, ⟨0, 8⟩⟩], []⟩
  have ended : Ended "state A\n".toList := .inr ⟨"state A".toList, by decide +kernel⟩
  have sized : size "state A\n".toList = 8 := by decide +kernel
  have refused : (Model.parse "state A\nmachine X").toOption = none := by decide +kernel
  refine ⟨model, by decide +kernel, ?_, fun other read => ?_⟩
  · rw [← sized, complete_of_ended ended model]
    exact List.mem_cons_self
  · rw [read] at refused
    cases refused

end FsmWorkbench
