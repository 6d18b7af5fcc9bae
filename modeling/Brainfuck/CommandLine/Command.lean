import Brainfuck.CommandLine.Files
import Brainfuck.CommandLine.Options
import Brainfuck.Compiler
import Brainfuck.Machine.Emulator
import Brainfuck.Text.Encoding

/-!
# The compiler command

Compile a source file, print the assembly or write it to a file, and, if asked to, run it in the
emulator. `Command.run` is a function of the settings and of what is found at the paths they name;
its report tells what to print, what to write and how to end.
-/

namespace Brainfuck.CommandLine

/-- The settings of the command. An output, a template or an input that is empty counts as not given;
a step budget may be asked for without a number. -/
structure Settings where
  source : List Char := []
  output : List Char := []
  template : List Char := []
  run : Bool := false
  input : List Char := []
  maxSteps : Option (Given Int) := none
  verbose : Bool := false
  deriving DecidableEq

def grammar : Grammar Settings where
  options :=
    [⟨["-h".toList, "--help".toList], .help⟩,
      ⟨["-o".toList, "--output".toList], .text fun v s => { s with output := v.getD [] }⟩,
      ⟨["--template".toList], .text fun v s => { s with template := v.getD [] }⟩,
      ⟨["--run".toList], .flag fun s => { s with run := true }⟩,
      ⟨["--input".toList], .text fun v s => { s with input := v.getD [] }⟩,
      ⟨["--max-steps".toList], .integer fun n s => { s with maxSteps := some n }⟩,
      ⟨["-v".toList, "--verbose".toList], .flag fun s => { s with verbose := true }⟩]
  operands := [⟨"source".toList, fun v s => { s with source := v }⟩]

/-- The step budget of a run. A budget without a number allows no step. -/
def Settings.budget (settings : Settings) : Option Int :=
  settings.maxSteps.map (·.getD 0)

def readArguments (arguments : List (List Char)) : Except Stop Settings :=
  grammar.read {} arguments

/-- A failure that the command does not expect. -/
inductive Crash where
  | opening (error : OpenError)
  | decoding (failure : Text.Utf8Failure)
  | compilation (failure : Compiler.Failure)
  | setup (failure : Machine.SetupFailure)
  | machine (failure : Machine.Failure)
  /-- A step was to be counted against a budget without a number. -/
  | budget
  deriving DecidableEq

def Crash.message : Crash → String
  | opening e => e.message
  | decoding f => f.message
  | compilation f => f.message
  | setup f => f.message
  | machine f => f.message
  | budget => "'>=' not supported between instances of 'int' and 'list'"

inductive Exit where
  | status (code : Nat)
  | crash (crash : Crash)
  deriving DecidableEq

structure Report where
  stdout : List Char := []
  stderr : List Char := []
  written : Option (Path × List UInt8) := none
  exit : Exit := .status 0
  deriving DecidableEq

namespace Report

def print (report : Report) (text : List Char) : Report :=
  { report with stdout := report.stdout ++ text }

def say (report : Report) (message : String) : Report :=
  { report with stderr := report.stderr ++ message.toList ++ ['\n'] }

def log (report : Report) (verbose : Bool) (message : String) : Report :=
  if verbose then report.say message else report

def fail (report : Report) (message : String) : Report :=
  { report.say message with exit := .status 1 }

def abort (report : Report) (crash : Crash) : Report :=
  { report with exit := .crash crash }

end Report

def remarkLine : Remark → String
  | .matched piece =>
    s!"DEBUG bfnasm.generator: {piece.rule} matched {piece.length} operator(s) at offset {piece.offset}"
  | .translated operators lines =>
    s!"INFO bfnasm.transpiler: Translated {operators} operator(s) into {lines} instruction(s)"

def logOf (verbose : Bool) (remarks : List Remark) : List Char :=
  if verbose then remarks.flatMap fun remark => (remarkLine remark).toList ++ ['\n'] else []

/-- The contents of a file, or the report of a failure; where there is no file, with a message. -/
def load (find : Path → Finding) (path : Path) (missing : String) :
    Except Report (List UInt8) :=
  let finding := find path
  match finding.isThere path with
  | .error e => .error (({} : Report).abort (.opening e))
  | .ok false => .error (({} : Report).fail missing)
  | .ok true =>
    match finding.contents path with
    | .error e => .error (({} : Report).abort (.opening e))
    | .ok bytes => .ok bytes

def loadTemplate (settings : Settings) (find : Path → Finding) : Except Report (List Char) :=
  if settings.template.isEmpty then .ok Template.bundled
  else
    let path := Path.ofText settings.template
    match load find path s!"Template file not found: {String.ofList path.text}" with
    | .error report => .error report
    | .ok bytes =>
      match Text.decodeUtf8 bytes with
      | .error failure => .error (({} : Report).abort (.decoding failure))
      | .ok text => .ok (Text.unifyNewlines text)

def loadSource (settings : Settings) (find : Path → Finding) : Except Report (List Char) :=
  (load find (Path.ofText settings.source)
    s!"Source file not found: {String.ofList settings.source}").map fun bytes =>
      Text.unifyNewlines (Text.decodeLatin1 bytes)

def Report.failCompilation (report : Report) (failure : Compiler.Failure) : Report :=
  match failure with
  | .flaw _ | .template _ => report.fail s!"Transpilation error: {failure.message}"
  | .generation _ => report.abort (.compilation failure)

/-- Compile a source with a template. The report so far comes with the assembly. -/
def compile (settings : Settings) (template source : List Char) :
    Except Report (Report × List Char) :=
  let compiler : Compiler := { template := template }
  let (result, remarks) := compiler.linesWithRemarks source
  let report : Report := { stderr := logOf settings.verbose remarks }
  match result with
  | .error failure => .error (report.failCompilation failure)
  | .ok lines =>
    match compiler.fillTemplate (lines.map Line.text) with
    | .error failure => .error (report.failCompilation failure)
    | .ok assembly => .ok (report, assembly)

/-- Write the assembly to the output file, or print it unless it is going to be run. -/
def emit (settings : Settings) (find : Path → Finding) (report : Report) (assembly : List Char) :
    Except Report Report :=
  if !settings.output.isEmpty then
    let path := Path.ofText settings.output
    match (find path).writable path with
    | .error e => .error (report.abort (.opening e))
    | .ok () =>
      .ok ({ report with written := some (path, Text.encodeUtf8 assembly) }.log settings.verbose
        s!"INFO bfnasm.cli: Wrote assembly to {String.ofList settings.output}")
  else if settings.run then .ok report
  else .ok (report.print (if assembly.getLast? = some '\n' then assembly else assembly ++ ['\n']))

/-- Run the assembly in the emulator, for at most `turns` steps. -/
def runAssembly (settings : Settings) (report : Report) (assembly : List Char) (turns : Nat) :
    Report :=
  match Machine.Emulator.new none Machine.Emulator.defaultMemorySize {} settings.budget with
  | .error failure => report.abort (.setup failure)
  | .ok emulator =>
    let input := settings.input.map fun c => (c.toNat : Int)
    match (emulator.runText assembly input turns).1 with
    | .error failure =>
      if failure = .outOfSteps ∧ settings.maxSteps = some .nothing then report.abort .budget
      else if failure.isReported then report.fail s!"Execution error: {failure.message}"
      else report.abort (.machine failure)
    | .ok result =>
      (report.log settings.verbose
        s!"DEBUG bfnasm.emulator: Emulation finished after {result.steps} step(s)").print
        (Text.decodeLatin1 result.output.toList)

/-- The work of the command up to the point where it may fail with a report of its own. -/
def steps (settings : Settings) (find : Path → Finding) : Except Report (Report × List Char) := do
  let template ← loadTemplate settings find
  let source ← loadSource settings find
  let (report, assembly) ← compile settings template source
  let report ← emit settings find report assembly
  pure (report, assembly)

/-- Carry out the command. An unlimited run of the emulator ends after `turns` steps. -/
def run (settings : Settings) (find : Path → Finding) (turns : Nat) : Report :=
  match steps settings find with
  | .error report => report
  | .ok (report, assembly) =>
    if settings.run then
      runAssembly settings report assembly (turnsFor (stepBudget settings.budget) turns)
    else report

end Brainfuck.CommandLine
