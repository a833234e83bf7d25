import FsmWorkbench.Model.Occurrence
import FsmWorkbench.Model.Reader
import FsmWorkbench.Proofs.Notation.Cutting
import Mathlib.Data.List.Pairwise

set_option autoImplicit false

namespace FsmWorkbench

open Text

-- Letters, digits and underscores, and no digit first.
def IsIdentifier (text : String) : Prop :=
  ∃ first more, text.toList = first :: more ∧ isWordStart first = true ∧
    ∀ c ∈ more, isWordPart c = true

theorem IsIdentifier.newline_not_mem {text : String} (identifier : IsIdentifier text) :
    '\n' ∉ text.toList := by
  obtain ⟨first, more, same, starts, inside⟩ := identifier
  rw [same]
  intro feed
  rcases List.mem_cons.1 feed with rfl | later
  · exact absurd starts (by decide)
  · exact absurd (inside _ later) (by decide)

namespace Name

-- A name that stands in the rest of a text, which starts at the given offset.
structure StandsIn (name : Name) (offset : Nat) (cs : List Char) : Prop where
  identifier : IsIdentifier name.text
  place : ∃ front rest, cs = front ++ (name.text.toList ++ rest) ∧
    name.span = ⟨offset + size front, offset + size front + size name.text.toList⟩

def EndsBefore (a b : Name) : Prop :=
  a.span.stop < b.span.start

-- One of two names ends before the other, whichever that is.
def Apart (a b : Name) : Prop :=
  a.EndsBefore b ∨ b.EndsBefore a

instance symm_apart : Std.Symm Apart := ⟨fun _ _ => Or.symm⟩

theorem not_apart_of_touches {a b : Name} {offset : Nat} (first : a.span.touches offset = true)
    (second : b.span.touches offset = true) : ¬ a.Apart b := by
  simp only [Span.touches, Bool.and_eq_true, decide_eq_true_eq] at first second
  simp only [Apart, EndsBefore]
  omega

theorem StandsIn.behind {name : Name} {offset : Nat} {cs : List Char} (front : List Char)
    (stands : name.StandsIn (offset + size front) cs) : name.StandsIn offset (front ++ cs) := by
  obtain ⟨identifier, between, rest, rfl, span⟩ := stands
  refine ⟨identifier, front ++ between, rest, by simp, ?_⟩
  rw [span, size_append, Nat.add_assoc offset]

theorem StandsIn.lt_start {name : Name} {offset : Nat} {cs : List Char}
    (stands : name.StandsIn offset cs) (other : ∀ c ∈ cs.head?, isWordStart c = false) :
    offset < name.span.start := by
  obtain ⟨⟨first, more, spelled, starts, -⟩, front, rest, rfl, span⟩ := stands
  cases front with
  | nil => simp [spelled, starts] at other
  | cons c front =>
    have positive := c.utf8Size_pos
    simp only [span, size_cons]
    omega

theorem StandsIn.stop_le {name : Name} {offset : Nat} {cs : List Char}
    (stands : name.StandsIn offset cs) : name.span.stop ≤ offset + size cs := by
  obtain ⟨-, front, rest, rfl, span⟩ := stands
  simp only [span, size_append]
  omega

end Name

def Token.name? (token : Token) : Option Name :=
  match token.lexeme with
  | .name text => some ⟨text, token.span⟩
  | _ => none

theorem name?_ofWord {text : String} {span : Span} {name : Name}
    (found : Token.name? ⟨Lexeme.ofWord text, span⟩ = some name) : name = ⟨text, span⟩ := by
  simp only [Token.name?, Lexeme.ofWord] at found
  cases word : Keyword.ofText? text <;> simp_all

namespace TokenStream

def names (stream : TokenStream) : List Name :=
  stream.tokens.filterMap Token.name?

@[simp] theorem names_finished (offset : Nat) : (finished offset).names = [] := rfl

@[simp] theorem names_blocked (offset : Nat) : (blocked offset).names = [] := rfl

@[simp] theorem names_token (head : Token) (rest : TokenStream) :
    (token head rest).names = head.name?.toList ++ rest.names := by
  simp only [names, tokens, List.filterMap_cons]
  cases head.name? <;> rfl

theorem quoted_eq_append {rest after : List Char}
    (closed : rest.dropWhile isQuotable = '"' :: after) :
    '"' :: rest = ('"' :: rest.takeWhile isQuotable ++ ['"']) ++ after := by
  rw [List.append_assoc, List.cons_append, List.singleton_append, ← closed,
    List.takeWhile_append_dropWhile]

theorem size_quoted (content : List Char) :
    size ('"' :: content) + 1 = size ('"' :: content ++ ['"']) := by
  rw [size_append]
  rfl

theorem standsIn_of_mem_names {offset : Nat} {cs : List Char} {name : Name}
    (member : name ∈ (scan offset cs).names) : name.StandsIn offset cs := by
  fun_induction scan offset cs with
  | case1 | case6 | case7 => simp at member
  | case2 offset c rest _ ih => exact (ih member).behind [c]
  | case3 offset c rest _ _ ih =>
    have stands := (ih member).behind (c :: rest.takeWhile isCommentPart)
    rwa [List.cons_append, List.takeWhile_append_dropWhile] at stands
  | case4 offset c rest _ _ starts word ih =>
    have whole : c :: rest = word ++ rest.dropWhile isWordPart := by
      simp [word, List.takeWhile_append_dropWhile]
    rw [whole]
    rcases List.mem_append.1 (names_token .. ▸ member) with here | later
    · obtain rfl := name?_ofWord (Option.mem_toList.1 here)
      have identifier : IsIdentifier (String.ofList word) :=
        ⟨c, rest.takeWhile isWordPart, by simp [word], starts, fun _ => eq_true_of_mem_takeWhile⟩
      exact ⟨identifier, [], rest.dropWhile isWordPart, by simp, by simp⟩
    · exact (ih later).behind word
  | case5 offset rest content after closed _ _ _ next ih =>
    rw [quoted_eq_append closed]
    apply Name.StandsIn.behind
    rw [← size_quoted, ← Nat.add_assoc]
    exact ih (by simpa [Token.name?] using member)

-- A word ends only where no other word can begin.
theorem pairwise_names (offset : Nat) (cs : List Char) :
    (scan offset cs).names.Pairwise Name.EndsBefore := by
  fun_induction scan offset cs with
  | case1 | case6 | case7 => simp
  | case2 offset c rest _ ih => exact ih
  | case3 offset c rest _ _ ih => exact ih
  | case4 offset c rest _ _ starts word ih =>
    have ends : ∀ d ∈ (rest.dropWhile isWordPart).head?, isWordStart d = false := by
      intro d head
      have part := eq_false_of_mem_head?_dropWhile head
      exact Bool.eq_false_iff.2 fun starts => by simp [isWordPart_of_isWordStart starts] at part
    rw [names_token, List.pairwise_append]
    refine ⟨?_, ih, fun a here b later => ?_⟩
    · generalize Token.name? _ = name
      cases name <;> simp
    · obtain rfl := name?_ofWord (Option.mem_toList.1 here)
      exact (standsIn_of_mem_names later).lt_start ends
  | case5 offset rest content after closed _ _ _ next ih => simpa [Token.name?] using ih

end TokenStream

def Declaration.names : Declaration → List Name
  | .machine decl => [decl.name]
  | .state decl => [decl.name]
  | .transition decl => decl.name :: decl.endpoints

namespace Stage

def names : Stage → List Name
  | .opening | .settled | .machineName _ | .stateName _ | .transitionName _ => []
  | .stateFlag _ name | .sourceWord _ name | .sourceName _ name => [name]
  | .targetWord _ name source | .targetName _ name source => [name, source]
  | .guardWord _ name source target | .guardText _ name source target => [name, source, target]

theorem names_finish? {stage : Stage} {offset : Nat} {decls : List Declaration}
    (done : stage.finish? offset = some decls) : decls.flatMap Declaration.names = stage.names := by
  cases stage <;> simp_all [finish?, names] <;> subst done <;> rfl

theorem names_advance? {stage next : Stage} {token : Token} {decls : List Declaration}
    (fits : stage.advance? token = some (decls, next)) :
    decls.flatMap Declaration.names ++ next.names = stage.names ++ token.name?.toList := by
  obtain ⟨lexeme, span⟩ := token
  rcases lexeme with word | text | content
  case keyword =>
    cases word <;> cases stage <;> simp [advance?, finish?] at fits <;>
      (obtain ⟨rfl, rfl⟩ := fits; rfl)
  all_goals
    cases stage <;> simp [advance?] at fits <;> (obtain ⟨rfl, rfl⟩ := fits; rfl)

end Stage

theorem names_readFrom {stage : Stage} {stream : TokenStream} {decls : List Declaration}
    (read : readFrom stage stream = .ok decls) :
    decls.flatMap Declaration.names = stage.names ++ stream.names := by
  induction stream generalizing stage decls with
  | finished offset =>
    rw [readFrom] at read
    split at read
    · next completed done =>
      obtain rfl := Except.ok.inj read
      simpa using Stage.names_finish? done
    · cases read
  | blocked offset => cases read
  | token head rest ih =>
    rw [readFrom] at read
    split at read
    · next completed next fits =>
      cases later : readFrom next rest with
      | error fault => rw [later] at read; cases read
      | ok more =>
        rw [later] at read
        obtain rfl := Except.ok.inj read
        rw [List.flatMap_append, ih later, ← List.append_assoc, Stage.names_advance? fits,
          List.append_assoc, TokenStream.names_token]
    · cases read

namespace Model

theorem mem_names_ofDeclarations {decls : List Declaration} {occurrence : Occurrence}
    (member : occurrence ∈ (ofDeclarations decls).names) :
    occurrence.name ∈ decls.flatMap Declaration.names := by
  simp only [names, ofDeclarations, List.mem_append, Option.mem_toList,
    Option.map_eq_some_iff, List.mem_map, List.mem_flatMap, List.mem_filterMap] at member
  rw [List.mem_flatMap]
  rcases member with (⟨machine, found, rfl⟩ | ⟨state, ⟨decl, within, found⟩, rfl⟩) |
    ⟨transition, ⟨decl, within, found⟩, here⟩
  · obtain ⟨decl, within, found⟩ := List.exists_of_findSome?_eq_some found
    refine ⟨decl, within, ?_⟩
    cases decl <;> simp_all [Declaration.machine?, Declaration.names]
  · refine ⟨decl, within, ?_⟩
    cases decl <;> simp_all [Declaration.state?, Declaration.names]
  · refine ⟨decl, within, ?_⟩
    have named : occurrence.name ∈ transition.name :: transition.endpoints := by
      simp only [TransitionDecl.occurrences, List.mem_cons, List.mem_map] at here ⊢
      rcases here with rfl | ⟨endpoint, ending, rfl⟩ <;> simp [*]
    cases decl <;> simp_all [Declaration.transition?, Declaration.names]

variable {text : String} {model : Model}

theorem mem_names_of_parse (parsed : parse text = .ok model) {name : Name}
    (member : name ∈ model.names.map Occurrence.name) : name ∈ (TokenStream.ofText text).names := by
  rw [parse] at parsed
  split at parsed
  · next decls read =>
    obtain rfl := Except.ok.inj parsed
    obtain ⟨occurrence, listed, rfl⟩ := List.mem_map.1 member
    have kept := mem_names_ofDeclarations listed
    rwa [names_readFrom read] at kept
  · cases parsed

theorem standsIn_of_parse (parsed : parse text = .ok model) {name : Name}
    (member : name ∈ model.names.map Occurrence.name) : name.StandsIn 0 text.toList :=
  TokenStream.standsIn_of_mem_names (mem_names_of_parse parsed member)

theorem eq_of_touches (parsed : parse text = .ok model) {a b : Name} {offset : Nat}
    (first : a ∈ model.names.map Occurrence.name) (second : b ∈ model.names.map Occurrence.name)
    (touched : a.span.touches offset = true) (also : b.span.touches offset = true) : a = b := by
  have apart : (TokenStream.ofText text).names.Pairwise Name.Apart :=
    (TokenStream.pairwise_names 0 text.toList).imp .inl
  by_contra different
  exact Name.not_apart_of_touches touched also <|
    apart.forall (mem_names_of_parse parsed first) (mem_names_of_parse parsed second) different

end Model

end FsmWorkbench
