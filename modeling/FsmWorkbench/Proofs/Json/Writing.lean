import FsmWorkbench.Json.Value
import FsmWorkbench.Proofs.Notation.Cutting
import Mathlib

set_option autoImplicit false

namespace FsmWorkbench.Json

namespace Spread

@[simp] theorem deeper_compact : compact.deeper = compact := rfl

@[simp] theorem margin_compact : compact.margin = [] := rfl

@[simp] theorem colon_compact : compact.colon = [':'] := rfl

end Spread

def hexValue (c : Char) : Nat :=
  if c.toNat < 58 then c.toNat - 48 else c.toNat - 87

theorem hexValue_hexDigit : ∀ n < 16, hexValue (hexDigit n) = n := by
  decide

def unescape? : List Char → Option (Char × List Char)
  | [] | '"' :: _ => none
  | '\\' :: 'b' :: rest => some ('\x08', rest)
  | '\\' :: 'f' :: rest => some ('\x0c', rest)
  | '\\' :: 'n' :: rest => some ('\n', rest)
  | '\\' :: 'r' :: rest => some ('\r', rest)
  | '\\' :: 't' :: rest => some ('\t', rest)
  | '\\' :: 'u' :: '0' :: '0' :: high :: low :: rest =>
    some (Char.ofNat (16 * hexValue high + hexValue low), rest)
  | '\\' :: c :: rest => some (c, rest)
  | c :: rest => some (c, rest)

theorem unescape?_escape (c : Char) (rest : List Char) :
    unescape? (escape c ++ rest) = some (c, rest) := by
  rw [escape]
  split
  · next quote => simp [unescape?, quote]
  split
  · next backslash => simp [unescape?, backslash]
  split
  · next same => simp [unescape?, same]
  split
  · next same => simp [unescape?, same]
  split
  · next same => simp [unescape?, same]
  split
  · next same => simp [unescape?, same]
  split
  · next same => simp [unescape?, same]
  split
  · next control =>
    have high := hexValue_hexDigit (c.toNat / 16) (by omega)
    have low := hexValue_hexDigit (c.toNat % 16) (by omega)
    have code : 16 * (c.toNat / 16) + c.toNat % 16 = c.toNat := by omega
    simp [unescape?, high, low, code]
  · next _ backslash _ _ _ _ _ _ => simp [unescape?, backslash]

theorem flatMap_escape_unique {cs ds rest tail : List Char}
    (same : cs.flatMap escape ++ '"' :: rest = ds.flatMap escape ++ '"' :: tail) :
    cs = ds ∧ rest = tail := by
  have ended (rest : List Char) : unescape? ('"' :: rest) = none := rfl
  induction cs generalizing ds with
  | nil =>
    cases ds with
    | nil => exact ⟨rfl, (List.cons.inj same).2⟩
    | cons d ds =>
      have read := congrArg unescape? same
      rw [List.flatMap_cons, List.append_assoc, unescape?_escape] at read
      cases (ended rest).symm.trans read
  | cons c cs ih =>
    have read := congrArg unescape? same
    rw [List.flatMap_cons, List.append_assoc, unescape?_escape] at read
    cases ds with
    | nil => cases read.trans (ended tail)
    | cons d ds =>
      rw [List.flatMap_cons, List.append_assoc, unescape?_escape] at read
      obtain ⟨rfl, behind⟩ := Prod.mk.inj (Option.some.inj read)
      obtain ⟨rfl, rest⟩ := ih behind
      exact ⟨rfl, rest⟩

theorem quote_unique {first second : String} {rest tail : List Char}
    (same : quote first ++ rest = quote second ++ tail) : first = second ∧ rest = tail := by
  simp only [quote, List.cons_append, List.append_assoc, List.nil_append] at same
  obtain ⟨chars, behind⟩ := flatMap_escape_unique (List.cons.inj same).2
  exact ⟨String.toList_injective chars, behind⟩

def isNumberPart (c : Char) : Bool :=
  c == '-' || c.isDigit

theorem isNumberPart_of_mem {value : Int} :
    ∀ c ∈ (toString value).toList, isNumberPart c = true := by
  have digits {n : Nat} : ∀ c ∈ n.repr.toList, isNumberPart c = true := by
    intro c member
    rw [Nat.repr_eq_ofList_toDigits, String.toList_ofList] at member
    simp [isNumberPart, Nat.isDigit_of_mem_toDigits (by decide) (by decide) member]
  rw [Int.toString_eq_repr, Int.repr_eq_if]
  split
  · exact digits
  · rw [String.toList_append]
    exact List.forall_mem_append.2 ⟨by simp [isNumberPart], digits⟩

theorem toString_ne_nil (value : Int) : (toString value).toList ≠ [] := by
  have some (n : Nat) : n.repr.toList ≠ [] := by
    rw [Nat.repr_eq_ofList_toDigits, String.toList_ofList]
    exact Nat.toDigits_ne_nil
  rw [Int.toString_eq_repr, Int.repr_eq_if]
  split
  · exact some _
  · rw [String.toList_append]
    exact List.append_ne_nil_of_right_ne_nil _ (some _)

-- What stands behind a value does not go on with a number.
def Parted (rest : List Char) : Prop :=
  ∀ c ∈ rest.head?, isNumberPart c = false

theorem number_unique {first second : Int} {rest tail : List Char} (parted : Parted rest)
    (parted' : Parted tail)
    (same : (toString first).toList ++ rest = (toString second).toList ++ tail) :
    first = second ∧ rest = tail := by
  obtain ⟨texts, rests⟩ :=
    append_unique isNumberPart_of_mem parted isNumberPart_of_mem parted' same
  exact ⟨Int.repr_inj.1 (String.toList_injective texts), rests⟩

theorem bool_unique {first second : Bool} {rest tail : List Char}
    (same : (toString first).toList ++ rest = (toString second).toList ++ tail) :
    first = second ∧ rest = tail := by
  cases first <;> cases second
  case false.false | true.true => exact ⟨rfl, List.append_cancel_left same⟩
  case false.true | true.false => cases congrArg List.head? same

inductive Kind where
  | null
  | bool
  | number
  | text
  | array
  | object
  deriving DecidableEq, Repr

def kind : Json → Kind
  | .null => .null
  | .bool _ => .bool
  | .number _ => .number
  | .text _ => .text
  | .array _ => .array
  | .object _ => .object

def Kind.ofChar? (c : Char) : Option Kind :=
  if isNumberPart c then some .number
  else [('n', Kind.null), ('t', .bool), ('f', .bool), ('"', .text), ('[', .array),
    ('\x7b', .object)].lookup c

theorem ofChar?_head (spread : Spread) (value : Json) :
    (write spread value).head?.bind Kind.ofChar? = some value.kind := by
  cases value with
  | null => rfl
  | bool value => cases value <;> rfl
  | number value =>
    obtain ⟨first, more, split⟩ := List.exists_cons_of_ne_nil (toString_ne_nil value)
    have part : isNumberPart first = true :=
      isNumberPart_of_mem first (split ▸ List.mem_cons_self)
    rw [write, split, List.head?_cons, Option.bind_some, Kind.ofChar?, if_pos part]
    rfl
  | text value => rfl
  | array items => cases items <;> rw [write] <;> rfl
  | object members => rcases members with _ | ⟨⟨key, value⟩, members⟩ <;> rw [write] <;> rfl

theorem ofChar?_head_append (spread : Spread) (value : Json) (rest : List Char) :
    (write spread value ++ rest).head?.bind Kind.ofChar? = some value.kind := by
  have known := ofChar?_head spread value
  cases text : write spread value with
  | nil => simp [text] at known
  | cons c more => simpa [text] using known

theorem kind_unique {spread : Spread} {first second : Json} {rest tail : List Char}
    (same : write spread first ++ rest = write spread second ++ tail) :
    first.kind = second.kind := by
  have kinds := ofChar?_head_append spread first rest
  rw [same, ofChar?_head_append] at kinds
  exact (Option.some.inj kinds).symm

theorem ne_bracket {spread : Spread} {value : Json} {rest tail : List Char}
    (same : ']' :: tail = write spread value ++ rest) : False := by
  have kind := ofChar?_head_append spread value rest
  rw [← same] at kind
  cases kind

theorem parted_writeItems (spread : Spread) (items : List Json) (rest : List Char) :
    Parted (writeItems spread items ++ ']' :: rest) := by
  cases items <;> simp [Parted, writeItems] <;> decide

theorem parted_writeMembers (spread : Spread) (members : List (String × Json))
    (rest : List Char) : Parted (writeMembers spread members ++ '\x7d' :: rest) := by
  cases members <;> simp [Parted, writeMembers] <;> decide

-- Behind its bracket, an array is a list of items like what follows the first one.
theorem writeItems_of_array {items others : List Json} {rest tail : List Char}
    (same : write .compact (.array items) ++ rest = write .compact (.array others) ++ tail) :
    writeItems .compact items ++ ']' :: rest = writeItems .compact others ++ ']' :: tail := by
  cases items with
  | nil =>
    cases others with
    | nil => exact (List.cons.inj same).2
    | cons other others =>
      simp only [write, Spread.deeper_compact, Spread.margin_compact, List.cons_append,
        List.append_assoc, List.nil_append, List.cons.injEq, true_and] at same
      exact (ne_bracket same).elim
  | cons item items =>
    cases others with
    | nil =>
      simp only [write, Spread.deeper_compact, Spread.margin_compact, List.cons_append,
        List.append_assoc, List.nil_append, List.cons.injEq, true_and] at same
      exact (ne_bracket same.symm).elim
    | cons other others =>
      simpa [write, writeItems] using same

theorem writeMembers_of_object {members others : List (String × Json)} {rest tail : List Char}
    (same : write .compact (.object members) ++ rest = write .compact (.object others) ++ tail) :
    writeMembers .compact members ++ '\x7d' :: rest =
      writeMembers .compact others ++ '\x7d' :: tail := by
  rcases members with _ | ⟨⟨key, value⟩, members⟩ <;>
    rcases others with _ | ⟨⟨otherKey, other⟩, others⟩ <;>
    simp_all [write, writeMembers, quote]

mutual

theorem write_unique : ∀ (value other : Json) {rest tail : List Char}, Parted rest →
    Parted tail → write .compact value ++ rest = write .compact other ++ tail →
      value = other ∧ rest = tail
  | .null, other, rest, tail, parted, parted', same => by
    have kinds := kind_unique same
    cases other with
    | null => exact ⟨rfl, List.append_cancel_left same⟩
    | _ => cases kinds
  | .bool value, other, rest, tail, parted, parted', same => by
    have kinds := kind_unique same
    cases other with
    | bool other =>
      obtain ⟨rfl, rests⟩ := bool_unique same
      exact ⟨rfl, rests⟩
    | _ => cases kinds
  | .number value, other, rest, tail, parted, parted', same => by
    have kinds := kind_unique same
    cases other with
    | number other =>
      obtain ⟨rfl, rests⟩ := number_unique parted parted' same
      exact ⟨rfl, rests⟩
    | _ => cases kinds
  | .text value, other, rest, tail, parted, parted', same => by
    have kinds := kind_unique same
    cases other with
    | text other =>
      obtain ⟨rfl, rests⟩ := quote_unique same
      exact ⟨rfl, rests⟩
    | _ => cases kinds
  | .array items, other, rest, tail, parted, parted', same => by
    have kinds := kind_unique same
    cases other with
    | array others =>
      obtain ⟨rfl, rests⟩ := writeItems_unique items others (writeItems_of_array same)
      exact ⟨rfl, rests⟩
    | _ => cases kinds
  | .object members, other, rest, tail, parted, parted', same => by
    have kinds := kind_unique same
    cases other with
    | object others =>
      obtain ⟨rfl, rests⟩ := writeMembers_unique members others (writeMembers_of_object same)
      exact ⟨rfl, rests⟩
    | _ => cases kinds

theorem writeItems_unique : ∀ (items others : List Json) {rest tail : List Char},
    writeItems .compact items ++ ']' :: rest = writeItems .compact others ++ ']' :: tail →
      items = others ∧ rest = tail
  | [], [], rest, tail, same => ⟨rfl, (List.cons.inj same).2⟩
  | [], _ :: _, rest, tail, same => by simp [writeItems] at same
  | _ :: _, [], rest, tail, same => by simp [writeItems] at same
  | item :: items, other :: others, rest, tail, same => by
    simp only [writeItems, Spread.margin_compact, List.cons_append, List.append_assoc,
      List.nil_append, List.cons.injEq, true_and] at same
    obtain ⟨rfl, behind⟩ := write_unique item other
      (parted_writeItems _ items rest) (parted_writeItems _ others tail) same
    obtain ⟨rfl, rests⟩ := writeItems_unique items others behind
    exact ⟨rfl, rests⟩

theorem writeMembers_unique : ∀ (members others : List (String × Json)) {rest tail : List Char},
    writeMembers .compact members ++ '\x7d' :: rest =
      writeMembers .compact others ++ '\x7d' :: tail → members = others ∧ rest = tail
  | [], [], rest, tail, same => ⟨rfl, (List.cons.inj same).2⟩
  | [], (_, _) :: _, rest, tail, same => by simp [writeMembers] at same
  | (_, _) :: _, [], rest, tail, same => by simp [writeMembers] at same
  | (key, value) :: members, (otherKey, other) :: others, rest, tail, same => by
    simp only [writeMembers, Spread.margin_compact, Spread.colon_compact, List.cons_append,
      List.append_assoc, List.nil_append, List.cons.injEq, true_and] at same
    obtain ⟨rfl, values⟩ := quote_unique same
    obtain ⟨rfl, behind⟩ := write_unique value other
      (parted_writeMembers _ members rest) (parted_writeMembers _ others tail)
      (List.cons.inj values).2
    obtain ⟨rfl, rests⟩ := writeMembers_unique members others behind
    exact ⟨rfl, rests⟩

end

end FsmWorkbench.Json
