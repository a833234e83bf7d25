import FsmWorkbench.Json.Value
import FsmWorkbench.Language

set_option autoImplicit false

namespace FsmWorkbench

def programName : String := "fsm-lsp"

def programVersion : String := LanguageInfo.standard.version

namespace Capabilities

def documentSync : Json :=
  .object [("change", .number 1), ("openClose", .bool true), ("save", .object [])]

def served : Json :=
  .object
    [("completionProvider", .object [("triggerCharacters", .array [.text " "])]),
      ("definitionProvider", .bool true),
      ("documentFormattingProvider", .bool true),
      ("hoverProvider", .bool true),
      ("referencesProvider", .bool true),
      ("textDocumentSync", documentSync)]

def greeting : Json :=
  .object
    [("capabilities", served),
      ("serverInfo", .object [("name", .text programName), ("version", .text programVersion)])]

end Capabilities

end FsmWorkbench
