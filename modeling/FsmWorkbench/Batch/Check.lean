import FsmWorkbench.Batch.FileTree
import FsmWorkbench.Editor.Diagnostic
import FsmWorkbench.Services.Bootstrap

set_option autoImplicit false

namespace FsmWorkbench

open Text

structure Finding where
  path : String
  line : UInt32
  column : UInt32
  severity : Severity
  code : String
  message : String
  deriving DecidableEq, Repr, Inhabited

def Severity.text : Severity → String
  | .error => "error"
  | .warning => "warning"

namespace Finding

def ofParseError (path : String) (error : ParseError) : Finding where
  path := path
  line := UInt32.ofNat error.line
  column := UInt32.ofNat error.column
  severity := .error
  code := syntaxErrorCode
  message := error.message

def ofIssue (path : String) (index : LineIndex) (issue : Issue) : Finding where
  path := path
  line := (index.positionOf issue.span.start).line + 1
  column := (index.positionOf issue.span.start).character + 1
  severity := issue.severity
  code := issue.code
  message := issue.message

def display (finding : Finding) : String :=
  s!"{finding.path}:{finding.line}:{finding.column} {finding.severity.text}[{finding.code}] " ++
    finding.message

end Finding

structure Report where
  files : Nat
  findings : List Finding
  deriving DecidableEq, Repr, Inhabited

namespace Report

def errors (report : Report) : Nat :=
  report.findings.countP fun finding => finding.severity == .error

end Report

inductive CheckError where
  | unreadable (path : String) (reason : ReadError)
  | unresolved (error : ResolveError)
  deriving DecidableEq, Repr, Inhabited

def CheckError.message : CheckError → String
  | .unreadable path reason => s!"failed to read {path}: {reason.message}"
  | .unresolved error => error.message

def checkText (parser : Parser) (validator : Validator) (path text : String) : List Finding :=
  match parser.parse text with
  | .error error => [.ofParseError path error]
  | .ok model => (validator.validate model).map (Finding.ofIssue path text.toList)

def checkPaths (parser : Parser) (validator : Validator)
    (read : String → Except ReadError String) : List String → Except CheckError Report
  | [] => .ok ⟨0, []⟩
  | path :: rest =>
    match read path with
    | .error reason => .error (.unreadable path reason)
    | .ok text =>
      (checkPaths parser validator read rest).map fun report =>
        ⟨report.files + 1, checkText parser validator path text ++ report.findings⟩

def checkFiles (container : Container) (read : String → Except ReadError String)
    (paths : List String) : Except CheckError Report :=
  let (parser, container) := container.resolveSlot Slot.parser
  let (validator, _) := container.resolveSlot Slot.validator
  match parser, validator with
  | .error error, _ | _, .error error => .error (.unresolved error)
  | .ok parser, .ok validator => checkPaths parser validator read paths

end FsmWorkbench
