import FsmWorkbench.Batch.CommandLine

set_option autoImplicit false

namespace FsmWorkbench

def filesOf : Command → List String
  | .check files => files
  | .generate file _ => [file]
  | _ => []

def readFile (path : String) : IO (Except ReadError String) := do
  try
    let bytes ← IO.FS.readBinFile path
    match String.fromUTF8? bytes with
    | some text => pure (.ok text)
    | none => pure (.error .notUnicode)
  catch
    | .inappropriateType .. => pure (.error .isDirectory)
    | .noFileOrDirectory .. => pure (.error .notFound)
    | _ => pure (.error .notDirectory)

end FsmWorkbench

open FsmWorkbench in
def main (args : List String) : IO UInt32 := do
  let command := Command.read? args
  let files ← ((command.map filesOf).getD []).mapM fun path => do
    pure (path, ← readFile path)
  let outcome := runArguments (fun path => (files.lookup path).getD (.error .notFound)) args
  IO.print outcome.stdout
  IO.eprint outcome.stderr
  pure (UInt32.ofNat outcome.exit)
