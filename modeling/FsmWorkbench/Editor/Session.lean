import FsmWorkbench.Editor.Capabilities
import FsmWorkbench.Editor.Diagnostic
import FsmWorkbench.Editor.RecentCache
import FsmWorkbench.Editor.Settings
import FsmWorkbench.Services.Bootstrap

set_option autoImplicit false

namespace FsmWorkbench

open Text

structure EditorServices where
  language : LanguageInfo
  validator : Validator
  formatter : Formatter
  completion : CompletionProvider
  hover : HoverProvider

structure HoverKey where
  uri : String
  digest : Digest
  position : Position
  deriving DecidableEq, Repr, Inhabited

structure HoverReply where
  markdown : String
  extent : Extent
  deriving DecidableEq, Repr, Inhabited

structure Session where
  container : Container
  services : EditorServices
  documents : Documents
  settings : Settings
  hovers : RecentCache HoverKey (Option HoverReply)

inductive Request where
  | didOpen (uri : String) (version : Int) (text : String)
  | didChange (uri : String) (version : Int) (texts : List String)
  | didClose (uri : String)
  | didSave (uri : String)
  | configure (settings : Json)
  | format (uri : String) (tabSize : Nat) (insertSpaces : Bool)
  | complete (uri : String) (position : Position)
  | hover (uri : String) (position : Position)
  | definition (uri : String) (position : Position)
  | references (uri : String) (position : Position) (declaration : Bool)
  | generate (uri : String) (pretty : Bool)
  | shutdown

structure Generated where
  version : Int
  outcome : Except String String

inductive Reply where
  | nothing
  | edits (edits : List TextEdit)
  | items (items : List CompletionItem)
  | hover (found : HoverReply)
  | location (uri : String) (extent : Extent)
  | locations (uri : String) (extents : List Extent)
  | generated (result : Generated)
  | failed (error : ResolveError)

structure Publication where
  uri : String
  diagnostics : List Diagnostic
  version : Option Int
  deriving DecidableEq, Repr, Inhabited

namespace Session

def hoverCapacity : Nat := 256

def ofContainer (container : Container) : Except ResolveError Session :=
  let (language, container) := container.resolveSlot Slot.language
  let (documents, container) := container.resolveSlot Slot.documents
  let (validator, container) := container.resolveSlot Slot.validator
  let (formatter, container) := container.resolveSlot Slot.formatter
  let (completion, container) := container.resolveSlot Slot.completion
  let (hover, container) := container.resolveSlot Slot.hover
  match language, documents, validator, formatter, completion, hover with
  | .ok language, .ok documents, .ok validator, .ok formatter, .ok completion, .ok hover =>
    .ok
      { container, documents
        services := { language, validator, formatter, completion, hover }
        settings := .standard
        hovers := .empty hoverCapacity }
  | .error error, _, _, _, _, _ | _, .error error, _, _, _, _ | _, _, .error error, _, _, _
  | _, _, _, .error error, _, _ | _, _, _, _, .error error, _ | _, _, _, _, _, .error error =>
    .error error

def hashing (session : Session) (digest : String → Digest) : Session :=
  { session with documents := session.documents.hashing digest }

def start : Except SetupError Session :=
  match Container.editor with
  | .ok container => (ofContainer container).mapError .configuration
  | .error error => .error error

def diagnosticsOf (session : Session) (document : Document) : List Diagnostic :=
  match document.parsed with
  | .error error => [.ofParseError error]
  | .ok model =>
    let issues := session.services.validator.validate model
    (issues.filter fun issue => session.settings.warnings || issue.severity == .error).map
      (Diagnostic.ofIssue document.index)

def publish (session : Session) (uri : String) (document : Document) : Publication :=
  ⟨uri, session.diagnosticsOf document, some document.version⟩

def upsert (session : Session) (uri : String) (version : Int) (text : String) :
    Publication × Session :=
  let (document, documents) := session.documents.upsert uri text version
  let later := { session with documents }
  (later.publish uri document, later)

def completionsAt (session : Session) (document : Document) (position : Position) : Reply :=
  match document.index.offsetOf? position with
  | none => .nothing
  | some offset =>
    .items (session.services.completion.complete document.text offset document.model?)

def hoverOver (session : Session) (document : Document) (position : Position) :
    Option HoverReply :=
  document.currentModel?.bind fun model =>
    (document.index.offsetOf? position).bind fun offset =>
      (session.services.hover.hover? model offset).map fun info =>
        ⟨info.markdown, extentOf document.index info.span⟩

def hoverAt (session : Session) (uri : String) (position : Position) :
    Option HoverReply × Session :=
  match session.documents.get? uri with
  | none => (none, session)
  | some document =>
    let key : HoverKey := ⟨uri, document.digest, position⟩
    match session.hovers.use? key with
    | some (known, hovers) => (known, { session with hovers })
    | none =>
      let found := session.hoverOver document position
      (found, { session with hovers := session.hovers.put key found })

def generate (session : Session) (document : Document) (pretty : Bool) : Reply × Session :=
  let (result, container) := session.container.resolveSlot Slot.generator
  let later := { session with container }
  match result with
  | .error error => (.failed error, later)
  | .ok generator =>
    let outcome :=
      match document.parsed with
      | .ok model => .ok (generator.generate model pretty)
      | .error error => .error ("Parse error: " ++ error.display)
    (.generated ⟨document.version, outcome⟩, later)

def answer (session : Session) : Request → Reply × Session
  | .format uri tabSize insertSpaces =>
    match session.documents.get? uri with
    | none => (.nothing, session)
    | some document =>
      let options := LayoutOptions.ofRequest tabSize insertSpaces session.settings.indentBody
      let result := session.services.formatter.format document.text options
      (.edits (layoutEdits document.text result), session)
  | .complete uri position =>
    match session.documents.get? uri with
    | none => (.nothing, session)
    | some document => (session.completionsAt document position, session)
  | .hover uri position =>
    let (found, later) := session.hoverAt uri position
    (found.elim .nothing .hover, later)
  | .definition uri position =>
    match session.documents.get? uri with
    | none => (.nothing, session)
    | some document =>
      let found := document.currentModel?.bind fun model =>
        model.definitionAt? document.index position
      (found.elim .nothing (.location uri), session)
  | .references uri position declaration =>
    match session.documents.get? uri with
    | none => (.nothing, session)
    | some document =>
      let found := document.currentModel?.map fun model =>
        model.referencesAt document.index position declaration
      (found.elim .nothing (.locations uri), session)
  | .generate uri pretty =>
    match session.documents.get? uri with
    | none => (.nothing, session)
    | some document => session.generate document pretty
  | _ => (.nothing, session)

def notify (session : Session) : Request → List Publication × Session
  | .didOpen uri version text =>
    let (publication, later) := session.upsert uri version text
    ([publication], later)
  | .didChange uri version texts =>
    match texts.head? with
    | none => ([], session)
    | some text =>
      let (publication, later) := session.upsert uri version text
      ([publication], later)
  | .didClose uri =>
    ([⟨uri, [], none⟩], { session with documents := session.documents.remove uri })
  | .didSave uri =>
    (((session.documents.get? uri).map (session.publish uri)).toList, session)
  | .configure settings =>
    ([], { session with
      settings := session.settings.update session.services.language.languageId settings })
  | .shutdown => ([], { session with container := session.container.shutdown })
  | _ => ([], session)

def step (session : Session) (request : Request) : Reply × List Publication × Session :=
  let (reply, answered) := session.answer request
  let (publications, notified) := answered.notify request
  (reply, publications, notified)

def run (session : Session) : List Request → List (Reply × List Publication) × Session
  | [] => ([], session)
  | request :: rest =>
    let (reply, publications, later) := session.step request
    let (replies, last) := later.run rest
    ((reply, publications) :: replies, last)

end Session

end FsmWorkbench
