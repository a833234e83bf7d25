import FsmWorkbench.Batch.Check
import FsmWorkbench.Editor.Capabilities

set_option autoImplicit false

namespace FsmWorkbench

inductive Command where
  | serve
  | check (files : List String)
  | generate (file : String) (compact : Bool)
  | version
  | help
  deriving DecidableEq, Repr, Inhabited

-- The commands that name files. Only `generate` knows `--compact`, and it takes a single file.
inductive FileCommand where
  | check
  | generate
  deriving DecidableEq, Repr, Inhabited

structure Arguments where
  logLevel : Bool
  compact : Bool
  help : Bool
  values : List String
  deriving DecidableEq, Repr, Inhabited

namespace Arguments

def start : Arguments := ⟨false, false, false, []⟩

def isOption (arg : String) : Bool :=
  arg.toList.head? == some '-' && arg != "-"

-- What follows the letter of a short option does not count any more.
def isHelp (arg : String) : Bool :=
  arg == "--help" || "-h".toList.isPrefixOf arg.toList

def isVersion (arg : String) : Bool :=
  arg == "--version" || "-V".toList.isPrefixOf arg.toList

def setsLogLevel (arg : String) : Bool :=
  "--log-level=".toList.isPrefixOf arg.toList

def withLogLevel? (given : Arguments) : Option Arguments :=
  if given.logLevel then none else some { given with logLevel := true }

def withCompact? (given : Arguments) : Option Arguments :=
  if given.compact then none else some { given with compact := true }

def withValue? (command : FileCommand) (given : Arguments) (arg : String) : Option Arguments :=
  if arg = "" ∨ (command = .generate ∧ given.values ≠ []) then none
  else some { given with values := given.values ++ [arg] }

-- Reads arguments up to a request for help. Behind `--` everything is a value.
def read? (command : FileCommand) (given : Arguments) : List String → Option Arguments
  | [] => some given
  | "--" :: rest => rest.foldlM (withValue? command) given
  | "--log-level" :: level :: rest =>
    if isOption level then none
    else given.withLogLevel?.bind fun next => read? command next rest
  | arg :: rest =>
    if isHelp arg then some { given with help := true }
    else if setsLogLevel arg then
      given.withLogLevel?.bind fun next => read? command next rest
    else if command = .generate ∧ arg = "--compact" then
      given.withCompact?.bind fun next => read? command next rest
    else if isOption arg then none
    else (given.withValue? command arg).bind fun next => read? command next rest

end Arguments

namespace Command

def ofArguments? (command : FileCommand) (given : Arguments) : Option Command :=
  if given.help then some .help
  else
    match command, given.values with
    | _, [] => none
    | .check, files => some (.check files)
    | .generate, [file] => some (.generate file given.compact)
    | .generate, _ => none

def ofTopic? : List String → Option Command
  | [] | ["check"] | ["generate"] | ["help"] => some .help
  | _ => none

def readFrom? (logLevel : Bool) : List String → Option Command
  | [] => some .serve
  | ["--"] => some .serve
  | "check" :: rest => (Arguments.read? .check .start rest).bind (ofArguments? .check)
  | "generate" :: rest => (Arguments.read? .generate .start rest).bind (ofArguments? .generate)
  | "help" :: rest => ofTopic? rest
  | "--log-level" :: level :: rest =>
    if logLevel || Arguments.isOption level then none else readFrom? true rest
  | arg :: rest =>
    if Arguments.isHelp arg then some .help
    else if Arguments.isVersion arg then some .version
    else if !logLevel && Arguments.setsLogLevel arg then readFrom? true rest
    else none

def read? (args : List String) : Option Command :=
  readFrom? false args

end Command

structure Outcome where
  exit : Nat
  stdout : String
  stderr : String
  deriving DecidableEq, Repr, Inhabited

namespace Outcome

def success (stdout : String) : Outcome := ⟨0, stdout, ""⟩

def failure (stdout reason : String) : Outcome := ⟨1, stdout, "Error: " ++ reason ++ "\n"⟩

def failureBecause (reason cause : String) : Outcome :=
  failure "" (reason ++ "\n\nCaused by:\n    " ++ cause)

def usage : Outcome := ⟨2, "", "usage: fsm-lsp [check FILE... | generate FILE [--compact]]\n"⟩

end Outcome

namespace Command

def runCheck (container : Container) (read : String → Except ReadError String)
    (files : List String) : Outcome :=
  match checkFiles container read files with
  | .error (.unreadable path reason) => .failureBecause s!"failed to read {path}" reason.message
  | .error (.unresolved error) => .failure "" error.message
  | .ok report =>
    let stdout := String.join (report.findings.map fun finding => finding.display ++ "\n")
    if report.errors = 0 then .success stdout
    else .failure stdout s!"{report.errors} error(s) in {report.files} file(s)"

def runGenerate (container : Container) (read : String → Except ReadError String)
    (file : String) (compact : Bool) : Outcome :=
  let (parser, container) := container.resolveSlot Slot.parser
  let (generator, _) := container.resolveSlot Slot.generator
  match parser, generator with
  | .error error, _ | _, .error error => .failure "" error.message
  | .ok parser, .ok generator =>
    match read file with
    | .error reason => .failureBecause s!"failed to read {file}" reason.message
    | .ok text =>
      match parser.parse text with
      | .error error => .failureBecause s!"failed to parse {file}" error.display
      | .ok model => .success (generator.generate model (!compact) ++ "\n")

-- Runs a command over the files that can be read. The server has no input here and ends at once.
def run (read : String → Except ReadError String) (command : Command) : Outcome :=
  match Container.standalone with
  | .error error => .failure "" error.message
  | .ok container =>
    match command with
    | .serve => .success ""
    | .check files => runCheck container read files
    | .generate file compact => runGenerate container read file compact
    | .version => .success s!"{programName} {programVersion}\n"
    | .help => .success Outcome.usage.stderr

end Command

def runArguments (read : String → Except ReadError String) (args : List String) : Outcome :=
  match Command.read? args with
  | some command => command.run read
  | none => .usage

end FsmWorkbench
