import FsmWorkbench.Model.Reader
import FsmWorkbench.Table
import FsmWorkbench.Text.LineIndex

set_option autoImplicit false

namespace FsmWorkbench

structure Parser where
  parse : String → Except ParseError Model

structure Digest where
  code : String
  deriving DecidableEq, Repr, Inhabited

structure Document where
  text : String
  version : Int
  -- Stays the same if an edit brings the same text back.
  digest : Digest
  index : Text.LineIndex
  parsed : Except ParseError Model
  lastValid : Option Model

namespace Document

def currentModel? (document : Document) : Option Model :=
  document.parsed.toOption

-- The current model, or else the last one. The spans of the last one need not fit the text.
def model? (document : Document) : Option Model :=
  document.currentModel?.or document.lastValid

def refresh (parser : Parser) (digest : String → Digest) (before : Option Document) (text : String)
    (version : Int) : Document where
  text := text
  version := version
  digest := digest text
  index := .ofText text.toList
  parsed := parser.parse text
  lastValid :=
    match parser.parse text with
    | .ok model => some model
    | .error _ => before.bind model?

end Document

structure Documents where
  parser : Parser
  digest : String → Digest
  opened : Table String Document

namespace Documents

def empty (parser : Parser) : Documents := ⟨parser, Digest.mk, .empty⟩

-- The same documents with another way to tell the texts to come apart.
def hashing (documents : Documents) (digest : String → Digest) : Documents :=
  { documents with digest }

def get? (documents : Documents) (uri : String) : Option Document :=
  documents.opened.get? uri

def upsert (documents : Documents) (uri text : String) (version : Int) : Document × Documents :=
  let document := Document.refresh documents.parser documents.digest (documents.get? uri) text
    version
  (document, { documents with opened := documents.opened.put uri document })

def remove (documents : Documents) (uri : String) : Documents :=
  { documents with opened := documents.opened.erase uri }

def size (documents : Documents) : Nat :=
  documents.opened.size

@[simp] theorem get?_upsert (documents : Documents) (uri other text : String) (version : Int) :
    (documents.upsert uri text version).2.get? other =
      if other = uri then some (documents.upsert uri text version).1 else documents.get? other := by
  simp [upsert, get?]

@[simp] theorem get?_remove (documents : Documents) (uri other : String) :
    (documents.remove uri).get? other = if other = uri then none else documents.get? other := by
  simp [remove, get?]

end Documents

end FsmWorkbench
