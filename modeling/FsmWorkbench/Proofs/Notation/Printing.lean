import FsmWorkbench.Proofs.Notation.Standing
import FsmWorkbench.Proofs.Notation.Words

set_option autoImplicit false

namespace FsmWorkbench

namespace Lexeme

def spelling : Lexeme → List Char
  | .keyword word => word.text.toList
  | .name text => text.toList
  | .quoted content => '"' :: (content.toList ++ ['"'])

-- Names that are no words and contents that end too early are not cut from their spelling.
def Writable : Lexeme → Prop
  | .keyword _ => True
  | .name text => IsIdentifier text ∧ ∀ word : Keyword, text ≠ word.text
  | .quoted content => '"' ∉ content.toList ∧ '\n' ∉ content.toList

theorem writable_ofWord {first : Char} {more : List Char} (starts : isWordStart first = true)
    (inside : ∀ c ∈ more, isWordPart c = true) :
    (ofWord (String.ofList (first :: more))).Writable := by
  cases same : ofWord (String.ofList (first :: more)) with
  | keyword => trivial
  | name text =>
    obtain ⟨rfl, fresh⟩ := ofWord_eq_name_iff.1 same
    exact ⟨⟨first, more, String.toList_ofList, starts, inside⟩, fresh⟩
  | quoted content =>
    rw [ofWord] at same
    split at same <;> cases same

theorem Writable.newline_not_mem {lexeme : Lexeme} (writable : lexeme.Writable) :
    '\n' ∉ lexeme.spelling := by
  cases lexeme with
  | keyword word => cases word <;> decide
  | name text => exact writable.1.newline_not_mem
  | quoted content => simpa [spelling] using writable.2

end Lexeme

theorem Cuts.writable {line : Nat} {cs : List Char} {pieces : List (Nat × Piece)}
    (cut : Cuts line cs pieces) : ∀ lexeme ∈ lexemesOf pieces, lexeme.Writable := by
  induction cut with
  | done => exact List.forall_mem_nil _
  | newline _ ih | blank _ _ ih | comment _ _ _ ih => exact ih
  | word starts inside _ _ ih =>
    exact List.forall_mem_cons.2 ⟨Lexeme.writable_ofWord starts inside, ih⟩
  | quoted unquoted inside _ ih =>
    refine List.forall_mem_cons.2 ⟨?_, ih⟩
    rw [Lexeme.Writable, String.toList_ofList]
    exact ⟨unquoted, inside⟩

theorem Cuts.spelling {line : Nat} {lexeme : Lexeme} {rest : List Char}
    {pieces : List (Nat × Piece)} (writable : lexeme.Writable)
    (ends : ∀ c ∈ rest.head?, isWordPart c = false) (after : Cuts line rest pieces) :
    Cuts line (lexeme.spelling ++ rest) ((line, .lexeme lexeme) :: pieces) := by
  cases lexeme with
  | keyword word =>
    obtain ⟨first, more, spelled, starts⟩ := Grammar.exists_cons_text word
    have inside : ∀ c ∈ more, isWordPart c = true := by
      intro c member
      have part : c ∈ word.text.toList := spelled ▸ List.mem_cons_of_mem first member
      exact Grammar.isWordPart_of_mem_text part
    have cut := Cuts.word starts inside ends after
    rw [← spelled, String.ofList_toList, Lexeme.ofWord_eq_keyword_iff.2 rfl] at cut
    rwa [Lexeme.spelling, spelled]
  | name text =>
    obtain ⟨⟨first, more, spelled, starts, inside⟩, fresh⟩ := writable
    have cut := Cuts.word starts inside ends after
    rw [← spelled, String.ofList_toList, Lexeme.ofWord_eq_name_iff.2 ⟨rfl, fresh⟩] at cut
    rwa [Lexeme.spelling, spelled]
  | quoted content =>
    have cut := Cuts.quoted writable.1 writable.2 after
    rw [String.ofList_toList] at cut
    simpa [Lexeme.spelling] using cut

def spaced (lexemes : List Lexeme) : List Char :=
  [' '].intercalate (lexemes.map Lexeme.spelling)

@[simp] theorem spaced_singleton (lexeme : Lexeme) : spaced [lexeme] = lexeme.spelling :=
  List.intercalate_singleton

@[simp] theorem spaced_cons_cons (first second : Lexeme) (more : List Lexeme) :
    spaced (first :: second :: more) = first.spelling ++ ' ' :: spaced (second :: more) := by
  simp [spaced, List.intercalate_cons_cons]

theorem cuts_spaced (line : Nat) {lexemes : List Lexeme}
    (writable : ∀ lexeme ∈ lexemes, lexeme.Writable) :
    Cuts line (spaced lexemes) (lexemes.map fun lexeme => (line, .lexeme lexeme)) := by
  induction lexemes with
  | nil => exact .done line
  | cons first more ih =>
    obtain ⟨front, others⟩ := List.forall_mem_cons.1 writable
    cases more with
    | nil =>
      have cut := Cuts.spelling front (by simp) (.done line)
      rwa [List.append_nil, ← spaced_singleton] at cut
    | cons second more =>
      rw [spaced_cons_cons]
      refine .spelling front (fun c head => ?_) (.blank (.inl rfl) (ih others))
      obtain rfl := Option.some.inj head
      decide

theorem lexemesOf_map (line : Nat) (lexemes : List Lexeme) :
    lexemesOf (lexemes.map fun lexeme => (line, .lexeme lexeme)) = lexemes := by
  rw [lexemesOf, List.filterMap_map]
  exact List.filterMap_some

theorem newline_not_mem_spaced {lexemes : List Lexeme}
    (writable : ∀ lexeme ∈ lexemes, lexeme.Writable) : '\n' ∉ spaced lexemes := by
  induction lexemes with
  | nil => exact List.not_mem_nil
  | cons first more ih =>
    obtain ⟨front, others⟩ := List.forall_mem_cons.1 writable
    cases more with
    | nil => simpa using front.newline_not_mem
    | cons second more => simpa using ⟨front.newline_not_mem, ih others⟩

namespace Program

def Writable (program : Program) : Prop :=
  ∀ lexeme ∈ program.lexemes, lexeme.Writable

def line (program : Program) : List Char :=
  spaced program.lexemes

theorem parse_line {program : Program} (writable : program.Writable) :
    ∃ model, Model.parse (String.ofList program.line) = .ok model ∧
      model.outline = program.outline := by
  refine parse_outline_iff.2 ⟨_, ?_, program, lexemesOf_map 0 _, rfl⟩
  rw [String.toList_ofList]
  exact cuts_spaced 0 writable

end Program

end FsmWorkbench
