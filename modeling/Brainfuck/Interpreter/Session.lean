import Brainfuck.Interpreter.Basic

/-!
# Interpreter sessions

A session keeps the tape, the pointer and the output of its latest run, so that they can be looked
at afterwards, also when the run failed. Each run starts from a blank tape. A text with a flaw is
refused before anything changes.

`Session.new` opens a session if there is storage for its tape. `Session.run` executes a program to
its end, and `Session.trace` gives a snapshot after every step and one more when the program has halted.
-/

namespace Brainfuck.Interpreter

/-- What is fixed for all runs: the number of cells, where a negative one counts as none, and what
a read stores at the end of the input. -/
structure Settings where
  tapeLength : Int := 30000
  endOfInput : Option Int := some 0
  deriving DecidableEq

def Settings.blankTape (settings : Settings) : Array UInt8 :=
  Array.replicate settings.tapeLength.toNat 0

def Settings.atEnd (settings : Settings) : Option UInt8 :=
  settings.endOfInput.map UInt8.ofInt

/-- The interpreter between two runs. -/
structure Session where
  settings : Settings
  tape : Array UInt8
  pointer : Int := 0
  output : Array UInt8 := #[]
  deriving DecidableEq

inductive Failure where
  | flaw (flaw : Flaw)
  | fault (fault : Fault)
  /-- The step budget was used up. -/
  | outOfSteps
  /-- The run was interrupted from outside. -/
  | interrupted
  deriving DecidableEq

def Failure.message : Failure → String
  | flaw f => f.message
  | fault f => f.message
  | outOfSteps => "Brainfuck program exceeded allowed step count"
  | interrupted => "Brainfuck program was interrupted"

/-- The failure a run's ending stands for, if any. -/
def Failure.ofEnding? : Ending Fault → Option Failure
  | .halted => none
  | .failed f => some (.fault f)
  | .exhausted => some .outOfSteps
  | .paused => some .interrupted

/-- What can be seen of the interpreter after a step. -/
structure Snapshot where
  step : Nat
  pc : Nat
  /-- The operator just executed; none once the program has halted. -/
  command : Option Char
  pointer : Int
  window : Window
  output : Array UInt8
  deriving DecidableEq

/-- The snapshot of a configuration, with the cells at most `radius` away from the pointer. -/
def Snapshot.of (radius : Int) (step : Nat) (command : Option Char) (c : Config) : Snapshot where
  step := step
  pc := c.pc
  command := command
  pointer := c.pointer
  window := windowAround c.tape c.pointer radius
  output := c.output

/-- The snapshots of a run and why there are no more. -/
structure Trace where
  snapshots : List Snapshot
  failure : Option Failure := none
  deriving DecidableEq

namespace Session

def blank (settings : Settings) : Session where
  settings := settings
  tape := settings.blankTape

def new (available : Option Nat) (settings : Settings) : Except StorageFailure Session :=
  match cellCount available settings.tapeLength with
  | .error failure => .error failure
  | .ok _ => .ok (blank settings)

def reset (session : Session) : Session :=
  blank session.settings

def initial (session : Session) (input : List Int) : Config where
  tape := session.settings.blankTape
  input := input.map UInt8.ofInt

def after (session : Session) (c : Config) (ending : Ending Fault) : Session where
  settings := session.settings
  tape := c.tape
  pointer := match ending with
    | .failed fault => c.pointer + fault.displacement
    | _ => c.pointer
  output := c.output

/-- Execute a program for at most `turns` steps and give its output. -/
def run (session : Session) (text : List Char) (input : List Int) (limit : Option Int)
    (turns : Nat) : Except Failure (Array UInt8) × Session :=
  match ensureProgram text with
  | .error flaw => (.error (.flaw flaw), session)
  | .ok () =>
    let result := (system (Code.ofText text) session.settings.atEnd).drive (stepBudget limit)
      turns 0 (session.initial input)
    let outcome := match Failure.ofEnding? result.ending with
      | none => .ok result.state.output
      | some failure => .error failure
    (outcome, session.after result.state result.ending)

def traceOf (radius : Int) (result : Run (Config × Array Snapshot) Fault) : Trace :=
  let (c, log) := result.state
  match result.ending with
  | .halted => ⟨(log.push (Snapshot.of radius result.steps none c)).toList, none⟩
  | .paused => ⟨log.toList, none⟩
  | .exhausted => ⟨log.toList, some .outOfSteps⟩
  | .failed fault => ⟨log.toList, some (.fault fault)⟩

/-- Execute a program step by step, until `turns` snapshots are taken. To ask for none is to do
nothing at all. -/
def trace (session : Session) (text : List Char) (input : List Int) (limit : Option Int)
    (radius : Int) (turns : Nat) : Trace × Session :=
  if turns = 0 then (⟨[], none⟩, session)
  else match ensureProgram text with
    | .error flaw => (⟨[], some (.flaw flaw)⟩, session)
    | .ok () =>
      let code := Code.ofText text
      let observed := (system code session.settings.atEnd).observed
        (fun c => code.text[c.pc]?) (Snapshot.of radius)
      let result := observed.drive (stepBudget limit) turns 0 (session.initial input, #[])
      (traceOf radius result, session.after result.state.1 result.ending)

end Session

end Brainfuck.Interpreter
