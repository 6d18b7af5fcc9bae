import Brainfuck.CommandLine.Command

/-!
# The program

The compiler command on the real file system.
-/

namespace Brainfuck.CommandLine

/-- What a failure to read a file tells about its path. -/
def findingOf : IO.Error → Finding
  | .noFileOrDirectory .. => .absent
  | .inappropriateType .. => .directory
  | .invalidArgument .. => .tooLong
  | _ => .throughFile

def look (path : Path) : IO Finding := do
  try
    let bytes ← IO.FS.readBinFile (String.ofList path.text)
    pure (.file bytes.toList)
  catch e => pure (findingOf e)

/-- Look at a path and, if nothing is there, at the directory it lies in. -/
def lookUp (path : Path) : IO Finding := do
  let finding ← look path
  if finding ≠ .absent then pure finding
  else
    let above ← look { path with names := path.names.dropLast }
    pure (if above = .directory then .absent else .noDirectory)

/-- A bound on the steps of a run without a budget. -/
def patience : Nat := 0x4000000000000000

def carryOut (report : Report) : IO UInt32 := do
  if let some (path, bytes) := report.written then
    IO.FS.writeBinFile (String.ofList path.text) ⟨bytes.toArray⟩
  IO.print (String.ofList report.stdout)
  IO.eprint (String.ofList report.stderr)
  match report.exit with
  | .status code => pure (UInt32.ofNat code)
  | .crash crash =>
    IO.eprintln crash.message
    pure 1

end Brainfuck.CommandLine

open Brainfuck.CommandLine in
def main (arguments : List String) : IO UInt32 := do
  match readArguments (arguments.map String.toList) with
  | .error .help =>
    IO.println "usage: [-h] [-o OUTPUT] [--template TEMPLATE] [--run] [--input INPUT]"
    IO.println "       [--max-steps MAX_STEPS] [-v] source"
    pure 0
  | .error (.error e) =>
    IO.eprintln s!"error: {e.message}"
    pure 2
  | .ok settings =>
    let paths := [settings.template, settings.source, settings.output].map Path.ofText
    let findings ← paths.mapM fun path => do pure (path, ← lookUp path)
    let find := fun path => (findings.lookup path).getD .absent
    carryOut (run settings find patience)
