import FsmWorkbench.Json.Value

set_option autoImplicit false

namespace FsmWorkbench

structure Settings where
  indentBody : Bool
  warnings : Bool
  deriving DecidableEq, Repr, Inhabited

namespace Settings

def standard : Settings := ⟨true, true⟩

def fields? (names : List String) : Json → Option (List (Option Json))
  | .object members => some (names.map fun name => members.lookup name)
  | .array items =>
    if items.length ≤ names.length then
      some ((List.range names.length).map fun index => items[index]?)
    else none
  | _ => none

def switch? (name : String) (section? : Option Json) : Option Bool :=
  match section? with
  | none => some true
  | some value =>
    match fields? [name] value with
    | some [none] => some true
    | some [some (.bool on)] => some on
    | _ => none

def ofJson? (value : Json) : Option Settings :=
  match fields? ["formatting", "validation"] value with
  | some [formatting, validation] =>
    (switch? "indentBody" formatting).bind fun indentBody =>
      (switch? "warnings" validation).map fun warnings => ⟨indentBody, warnings⟩
  | _ => none

-- The settings after a client has sent a new value for all sections. Without a readable section
-- of the notation's own the settings stay.
def update (settings : Settings) (languageId : String) : Json → Settings
  | .object members => ((members.lookup languageId).bind ofJson?).getD settings
  | _ => settings

end Settings

end FsmWorkbench
