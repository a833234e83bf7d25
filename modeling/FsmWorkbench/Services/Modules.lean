import FsmWorkbench.Services.Service

set_option autoImplicit false

namespace FsmWorkbench

-- What the factories of extensions keep between their calls: the next serial number, and how
-- often each recipe has been followed.
structure Workshop where
  nextSerial : Nat
  calls : Table Nat Nat

namespace Workshop

def start : Workshop := ⟨0, .empty⟩

instance : Inhabited Workshop := ⟨start⟩

def callsOf (workshop : Workshop) (recipe : Nat) : Nat :=
  (workshop.calls.get? recipe).getD 0

def takeSerial (workshop : Workshop) : Nat × Workshop :=
  (workshop.nextSerial, { workshop with nextSerial := workshop.nextSerial + 1 })

def countCall (workshop : Workshop) (recipe : Nat) : Workshop :=
  { workshop with calls := workshop.calls.put recipe (workshop.callsOf recipe + 1) }

end Workshop

abbrev ServiceBinding := Binding Service Workshop

abbrev ServiceSet := BindingSet Service Workshop

structure ServiceModule where
  name : String
  bindings : Except String (List (ServiceKey × ServiceBinding))

def Factory.simple (make : Supplies Service → Except ResolveError Service) :
    Factory Service Workshop :=
  fun supplies workshop => ⟨make supplies, workshop, []⟩

namespace Bindings

def closure : String := "<factory>"

def language : ServiceBinding :=
  ⟨Slot.language.key.name, .prebuilt (.language .standard)⟩

def parser : ServiceBinding :=
  ⟨"fsm_lsp::language::parser::GrammarParser",
    .factory [] .singleton (Factory.simple fun _ => .ok (.parser .standard))⟩

def coreValidator : ServiceBinding :=
  ⟨Slot.coreValidator.key.name,
    .factory [] .singleton (Factory.simple fun _ => .ok (.coreValidator .core))⟩

def validator : ServiceBinding :=
  ⟨closure,
    .factory [Slot.coreValidator.key] .singleton
      (Factory.simple fun supplies => (Slot.coreValidator.get supplies).map .validator)⟩

def formatter : ServiceBinding :=
  ⟨"fsm_lsp::language::formatter::LayoutFormatter",
    .factory [Slot.parser.key] .singleton
      (Factory.simple fun supplies =>
        (Slot.parser.get supplies).map fun parser => .formatter (.layout parser))⟩

def generator : ServiceBinding :=
  ⟨"fsm_lsp::language::generator::JsonGenerator",
    .factory [Slot.language.key] .transient
      (Factory.simple fun supplies =>
        (Slot.language.get supplies).map fun info => .generator (.json info))⟩

def editorValidator : ServiceBinding :=
  ⟨"fsm_lsp::ide::validator::IdeValidator",
    .factory [Slot.coreValidator.key] .singleton
      (Factory.simple fun supplies =>
        (Slot.coreValidator.get supplies).map fun base => .validator base.advising)⟩

def documents : ServiceBinding :=
  ⟨Slot.documents.key.name,
    .factory [Slot.parser.key] .singleton
      (Factory.simple fun supplies =>
        (Slot.parser.get supplies).map fun parser => .documents (.empty parser))⟩

def completion : ServiceBinding :=
  ⟨"fsm_lsp::ide::completion::KeywordCompletion",
    .factory [] .singleton (Factory.simple fun _ => .ok (.completion .keywords))⟩

def hover : ServiceBinding :=
  ⟨"fsm_lsp::ide::hover::DeclarationHover",
    .factory [Slot.language.key] .singleton
      (Factory.simple fun supplies =>
        (Slot.language.get supplies).map fun info => .hover (.declarations info))⟩

end Bindings

namespace ServiceModule

def runtime : ServiceModule where
  name := "runtime"
  bindings := .ok
    [(Slot.language.key, Bindings.language),
      (Slot.parser.key, Bindings.parser),
      (Slot.coreValidator.key, Bindings.coreValidator),
      (Slot.validator.key, Bindings.validator),
      (Slot.formatter.key, Bindings.formatter),
      (Slot.generator.key, Bindings.generator)]

def editor : ServiceModule where
  name := "ide"
  bindings := .ok
    [(Slot.validator.key, Bindings.editorValidator),
      (Slot.documents.key, Bindings.documents),
      (Slot.completion.key, Bindings.completion),
      (Slot.hover.key, Bindings.hover)]

end ServiceModule

end FsmWorkbench
