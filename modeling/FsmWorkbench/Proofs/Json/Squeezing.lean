import FsmWorkbench.Proofs.Json.Writing

set_option autoImplicit false

namespace FsmWorkbench.Json

-- Outside of literals, in one, or in one behind a backslash.
inductive Place where
  | outside
  | inside
  | escaped
  deriving DecidableEq, Repr

def isBlank (c : Char) : Bool :=
  c == ' ' || c == '\t' || c == '\n' || c == '\r'

def squeeze : Place → List Char → List Char
  | _, [] => []
  | .outside, c :: rest =>
    if isBlank c then squeeze .outside rest
    else c :: squeeze (if c = '"' then .inside else .outside) rest
  | .inside, c :: rest =>
    c :: squeeze (if c = '"' then .outside else if c = '\\' then .escaped else .inside) rest
  | .escaped, c :: rest => c :: squeeze .inside rest

def squeezed (text : String) : String :=
  String.ofList (squeeze .outside text.toList)

theorem squeeze_blank {front : List Char} (blank : ∀ c ∈ front, isBlank c = true)
    (rest : List Char) : squeeze .outside (front ++ rest) = squeeze .outside rest := by
  induction front with
  | nil => rfl
  | cons c front ih =>
    rw [List.forall_mem_cons] at blank
    rw [List.cons_append, squeeze, if_pos blank.1, ih blank.2]

theorem squeeze_plain {front : List Char} (plain : ∀ c ∈ front, isBlank c = false ∧ c ≠ '"')
    (rest : List Char) : squeeze .outside (front ++ rest) = front ++ squeeze .outside rest := by
  induction front with
  | nil => rfl
  | cons c front ih =>
    rw [List.forall_mem_cons] at plain
    simp [squeeze, plain.1, ih plain.2]

theorem squeeze_margin (spread : Spread) (rest : List Char) :
    squeeze .outside (spread.margin ++ rest) = squeeze .outside rest := by
  apply squeeze_blank
  cases spread with
  | compact => simp [Spread.margin]
  | lines depth =>
    intro c member
    rcases List.mem_cons.1 member with rfl | member
    · rfl
    · rw [List.eq_of_mem_replicate member]
      rfl

theorem squeeze_colon (spread : Spread) (rest : List Char) :
    squeeze .outside (spread.colon ++ rest) = ':' :: squeeze .outside rest := by
  cases spread <;> rfl

theorem hexDigit_inside : ∀ n < 16, hexDigit n ≠ '"' ∧ hexDigit n ≠ '\\' := by
  decide

theorem squeeze_escape (c : Char) (rest : List Char) :
    squeeze .inside (escape c ++ rest) = escape c ++ squeeze .inside rest := by
  rw [escape]
  split
  · rfl
  split
  · rfl
  split
  · rfl
  split
  · rfl
  split
  · rfl
  split
  · rfl
  split
  · rfl
  split
  · next control =>
    have high := hexDigit_inside (c.toNat / 16) (by omega)
    have low := hexDigit_inside (c.toNat % 16) (by omega)
    simp [squeeze, high, low]
  · next quote backslash _ _ _ _ _ _ => simp [squeeze, quote, backslash]

theorem squeeze_literal (cs : List Char) (rest : List Char) :
    squeeze .inside (cs.flatMap escape ++ '"' :: rest) =
      cs.flatMap escape ++ '"' :: squeeze .outside rest := by
  induction cs with
  | nil => rfl
  | cons c cs ih => rw [List.flatMap_cons, List.append_assoc, squeeze_escape, ih, List.append_assoc]

theorem squeeze_quote (text : String) (rest : List Char) :
    squeeze .outside (quote text ++ rest) = quote text ++ squeeze .outside rest := by
  have opened : quote text ++ rest = '"' :: (text.toList.flatMap escape ++ '"' :: rest) := by
    simp [quote]
  have start (cs : List Char) : squeeze .outside ('"' :: cs) = '"' :: squeeze .inside cs := rfl
  rw [opened, start, squeeze_literal]
  simp [quote]

theorem squeeze_number (value : Int) (rest : List Char) :
    squeeze .outside ((toString value).toList ++ rest) =
      (toString value).toList ++ squeeze .outside rest := by
  apply squeeze_plain
  intro c member
  have part := isNumberPart_of_mem c member
  constructor
  · rw [← Bool.not_eq_true]
    intro blank
    simp only [isBlank, Bool.or_eq_true, beq_iff_eq] at blank
    rcases blank with ((rfl | rfl) | rfl) | rfl <;> cases part
  · rintro rfl
    cases part

theorem squeeze_mark {c : Char} (mark : c ∈ ['[', ']', '\x7b', '\x7d', ',']) (rest : List Char) :
    squeeze .outside (c :: rest) = c :: squeeze .outside rest := by
  simp only [List.mem_cons, List.not_mem_nil, or_false] at mark
  rcases mark with rfl | rfl | rfl | rfl | rfl <;> rfl

mutual

theorem squeeze_write (spread : Spread) : ∀ (value : Json) (rest : List Char),
    squeeze .outside (write spread value ++ rest) =
      write .compact value ++ squeeze .outside rest
  | .null, _ => rfl
  | .bool false, _ | .bool true, _ => rfl
  | .number value, rest => squeeze_number value rest
  | .text value, rest => squeeze_quote value rest
  | .array [], _ | .object [], _ => rfl
  | .array (item :: items), rest => by
    simp [write, squeeze_mark, squeeze_margin, squeeze_write spread.deeper item,
      squeeze_writeItems spread.deeper items]
  | .object ((key, value) :: members), rest => by
    simp [write, squeeze_mark, squeeze_margin, squeeze_quote, squeeze_colon,
      squeeze_write spread.deeper value, squeeze_writeMembers spread.deeper members]

theorem squeeze_writeItems (spread : Spread) : ∀ (items : List Json) (rest : List Char),
    squeeze .outside (writeItems spread items ++ rest) =
      writeItems .compact items ++ squeeze .outside rest
  | [], _ => rfl
  | item :: items, rest => by
    simp [writeItems, squeeze_mark, squeeze_margin, squeeze_write spread item,
      squeeze_writeItems spread items]

theorem squeeze_writeMembers (spread : Spread) :
    ∀ (members : List (String × Json)) (rest : List Char),
      squeeze .outside (writeMembers spread members ++ rest) =
        writeMembers .compact members ++ squeeze .outside rest
  | [], _ => rfl
  | (key, value) :: members, rest => by
    simp [writeMembers, squeeze_mark, squeeze_margin, squeeze_quote, squeeze_colon,
      squeeze_write spread value, squeeze_writeMembers spread members]

end

theorem squeezed_render (pretty : Bool) (value : Json) :
    squeezed (value.render pretty) = value.render false := by
  have squeezes := squeeze_write (if pretty then .lines 0 else .compact) value []
  rw [List.append_nil] at squeezes
  rw [squeezed, render, String.toList_ofList, squeezes]
  simp [squeeze, render]

theorem render_injective {pretty : Bool} {first second : Json}
    (same : first.render pretty = second.render pretty) : first = second := by
  have compact := congrArg squeezed same
  rw [squeezed_render, squeezed_render] at compact
  have texts : write .compact first ++ [] = write .compact second ++ [] :=
    congrArg (· ++ []) (String.ofList_injective compact)
  exact (write_unique first second (by simp [Parted]) (by simp [Parted]) texts).1

end FsmWorkbench.Json
