import FsmWorkbench.Editor.Navigation
import FsmWorkbench.Model.ParseError
import FsmWorkbench.Validation.Issue

set_option autoImplicit false

namespace FsmWorkbench

open Text

structure Diagnostic where
  extent : Extent
  severity : Severity
  code : String
  message : String
  deriving DecidableEq, Repr, Inhabited

def Severity.number : Severity → Nat
  | .error => 1
  | .warning => 2

def syntaxErrorCode : String := "E000"

def extentOfLines (startLine startColumn stopLine stopColumn : Nat) : Extent :=
  ⟨⟨UInt32.ofNat (startLine - 1), UInt32.ofNat (startColumn - 1)⟩,
    ⟨UInt32.ofNat (stopLine - 1), UInt32.ofNat (stopColumn - 1)⟩⟩

namespace Diagnostic

-- The error has a place but no length; one column is marked.
def ofParseError (error : ParseError) : Diagnostic where
  extent := extentOfLines error.line error.column error.line (error.column + 1)
  severity := .error
  code := syntaxErrorCode
  message := error.message

def ofIssue (index : LineIndex) (issue : Issue) : Diagnostic where
  extent := extentOf index issue.span
  severity := issue.severity
  code := issue.code
  message := issue.message

end Diagnostic

end FsmWorkbench
