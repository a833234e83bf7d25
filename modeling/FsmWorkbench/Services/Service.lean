import FsmWorkbench.Container.Injector
import FsmWorkbench.Editor.Completion
import FsmWorkbench.Editor.Documents
import FsmWorkbench.Editor.Edit
import FsmWorkbench.Editor.Hover
import FsmWorkbench.Layout
import FsmWorkbench.Model.Description
import FsmWorkbench.Validation.Advisory

set_option autoImplicit false

namespace FsmWorkbench

structure Validator where
  validate : Model → List Issue

structure Formatter where
  format : String → LayoutOptions → Except ParseError String

structure Generator where
  generate : Model → (pretty : Bool) → String

structure CompletionProvider where
  complete : String → Nat → Option Model → List CompletionItem

structure HoverProvider where
  hover? : Model → Nat → Option HoverInfo

structure Extension where
  key : ServiceKey
  serial : Nat
  label : String
  -- What its factory asked for, with the serial number if that was an extension too.
  received : List (ServiceKey × Option Nat)
  deriving DecidableEq, Repr, Inhabited

inductive Service where
  | language (info : LanguageInfo)
  | parser (value : Parser)
  | coreValidator (value : Validator)
  | validator (value : Validator)
  | formatter (value : Formatter)
  | generator (value : Generator)
  | documents (value : Documents)
  | completion (value : CompletionProvider)
  | hover (value : HoverProvider)
  | extension (value : Extension)

namespace Parser

def standard : Parser := ⟨Model.parse⟩

end Parser

namespace Validator

def core : Validator := ⟨Model.coreIssues⟩

def advising (base : Validator) : Validator :=
  ⟨fun model => model.advise (base.validate model)⟩

def lenient : Validator := ⟨fun _ => []⟩

end Validator

namespace Formatter

def layout (parser : Parser) : Formatter :=
  ⟨fun text options => (parser.parse text).map fun model => layoutAs options model text⟩

end Formatter

namespace Generator

def json (info : LanguageInfo) : Generator :=
  ⟨fun model pretty => (model.describe info).render pretty⟩

end Generator

namespace CompletionProvider

def keywords : CompletionProvider := ⟨FsmWorkbench.complete⟩

end CompletionProvider

namespace HoverProvider

def declarations (info : LanguageInfo) : HoverProvider := ⟨hoverAt? info⟩

end HoverProvider

-- A key together with what the values under it look like.
structure Slot (α : Type) where
  key : ServiceKey
  select : Service → Option α

namespace Slot

def language : Slot LanguageInfo where
  key := ⟨"fsm_lsp::language::LanguageInfo"⟩
  select
    | .language info => some info
    | _ => none

def parser : Slot Parser where
  key := ⟨"dyn fsm_lsp::language::parser::Parser"⟩
  select
    | .parser value => some value
    | _ => none

def coreValidator : Slot Validator where
  key := ⟨"fsm_lsp::language::validator::CoreValidator"⟩
  select
    | .coreValidator value => some value
    | _ => none

def validator : Slot Validator where
  key := ⟨"dyn fsm_lsp::language::validator::Validator"⟩
  select
    | .validator value => some value
    | _ => none

def formatter : Slot Formatter where
  key := ⟨"dyn fsm_lsp::language::formatter::Formatter"⟩
  select
    | .formatter value => some value
    | _ => none

def generator : Slot Generator where
  key := ⟨"dyn fsm_lsp::language::generator::Generator"⟩
  select
    | .generator value => some value
    | _ => none

def documents : Slot Documents where
  key := ⟨"fsm_lsp::ide::documents::DocumentStore"⟩
  select
    | .documents value => some value
    | _ => none

def completion : Slot CompletionProvider where
  key := ⟨"dyn fsm_lsp::ide::completion::CompletionProvider"⟩
  select
    | .completion value => some value
    | _ => none

def hover : Slot HoverProvider where
  key := ⟨"dyn fsm_lsp::ide::hover::HoverProvider"⟩
  select
    | .hover value => some value
    | _ => none

variable {α : Type}

def value (slot : Slot α) (found : Instance Service) : Except ResolveError α :=
  match slot.select found.service with
  | some value => .ok value
  | none => .error (.typeMismatch slot.key)

def get (slot : Slot α) (supplies : Supplies Service) : Except ResolveError α :=
  (supplies.get slot.key).bind slot.value

end Slot

end FsmWorkbench
