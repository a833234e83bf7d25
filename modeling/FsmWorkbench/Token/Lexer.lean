import FsmWorkbench.Text.Offset
import FsmWorkbench.Token.Basic

set_option autoImplicit false

namespace FsmWorkbench

open Text

def isSeparator (c : Char) : Bool :=
  c == ' ' || c == '\t' || c == '\r' || c == '\n'

def isWordStart (c : Char) : Bool :=
  c.isAlpha || c == '_'

def isWordPart (c : Char) : Bool :=
  c.isAlphanum || c == '_'

def isQuotable (c : Char) : Bool :=
  c != '"' && c != '\n'

def isCommentPart (c : Char) : Bool :=
  c != '\n'

theorem isWordPart_of_isWordStart {c : Char} (h : isWordStart c = true) : isWordPart c = true := by
  simp_all only [isWordStart, isWordPart, Char.isAlphanum, Bool.or_eq_true]
  rcases h with h | h <;> simp [h]

private theorem length_dropWhile_le (p : Char → Bool) (cs : List Char) :
    (cs.dropWhile p).length ≤ cs.length :=
  (List.dropWhile_sublist p).length_le

namespace TokenStream

def scan (offset : Nat) (cs : List Char) : TokenStream :=
  match cs with
  | [] => .finished offset
  | c :: rest =>
    if isSeparator c then scan (offset + c.utf8Size) rest
    else if c = '/' ∧ rest.head? = some '/' then
      scan (offset + size (c :: rest.takeWhile isCommentPart)) (rest.dropWhile isCommentPart)
    else if isWordStart c then
      let word := c :: rest.takeWhile isWordPart
      .token ⟨Lexeme.ofWord (String.ofList word), ⟨offset, offset + size word⟩⟩
        (scan (offset + size word) (rest.dropWhile isWordPart))
    else if c = '"' then
      let content := rest.takeWhile isQuotable
      match hrest : rest.dropWhile isQuotable with
      | '"' :: after =>
        let next := offset + size (c :: content) + 1
        .token ⟨.quoted (String.ofList content), ⟨offset, next⟩⟩ (scan next after)
      | _ => .blocked offset
    else .blocked offset
termination_by cs.length
decreasing_by
  · simp
  · have := length_dropWhile_le isCommentPart rest
    simp; omega
  · have := length_dropWhile_le isWordPart rest
    simp; omega
  · have := length_dropWhile_le isQuotable rest
    simp [hrest] at this ⊢; omega

def ofText (text : String) : TokenStream :=
  scan 0 text.toList

@[simp] theorem scan_nil (offset : Nat) : scan offset [] = .finished offset := by
  rw [scan]

end TokenStream

end FsmWorkbench
