import Brainfuck.Assembly
import Brainfuck.Cells
import Brainfuck.Machine.Step
import Brainfuck.Text.Basic

/-!
# The emulator

A machine whose memory ends in the tape. A whole program finds the stack pointer behind the last
byte of the memory; bare lines of generated code find it, and the pointer register, at the first cell
of the tape. The emulator keeps the state in which its latest run ended, also if the run failed.
-/

namespace Brainfuck.Machine

inductive SetupFailure where
  | noRoomForTape
  /-- There is no storage for the memory. -/
  | storage (failure : StorageFailure)
  | negativeSize
  deriving DecidableEq

def SetupFailure.message : SetupFailure → String
  | noRoomForTape => "memory_size must leave room for the tape"
  | storage f => f.message
  | negativeSize => "negative count"

inductive Failure where
  | fault (line : Nat) (fault : Fault)
  /-- The step budget was used up. -/
  | outOfSteps
  /-- The program ended and the pointer register is none of the registers. -/
  | unknownRegister (name : List Char)
  /-- The run was interrupted from outside. -/
  | interrupted
  deriving DecidableEq

def Failure.message : Failure → String
  | fault line f => f.message line
  | outOfSteps => "Assembly program exceeded allowed step count"
  | unknownRegister name => Text.quoted name
  | interrupted => "Assembly program was interrupted"

/-- Whether a failure is one that users are told of: a fault of the machine, or the end of the step
budget. -/
def Failure.isReported : Failure → Bool
  | fault _ f => f.isReported
  | outOfSteps => true
  | unknownRegister _ => false
  | interrupted => true

structure Result where
  output : Array UInt8
  tape : Array UInt8
  pointer : Int
  steps : Nat
  exitStatus : Option UInt8
  deriving DecidableEq

/-- An emulator: the size of its memory, which leaves room for the tape, the convention, the step
budget, and its state. -/
structure Emulator where
  memorySize : Nat
  convention : Convention
  room : convention.stackSize < memorySize
  limit : Option Int
  state : State

namespace Emulator

/-- The state in which a whole program starts. -/
def blank (memorySize : Nat) (input : List Int) : State where
  registers := ({} : Registers).set .rsp memorySize
  memory := Array.replicate memorySize 0
  input := input.map UInt8.ofInt

/-- The emulator in which nothing has run. -/
def ofSize (memorySize : Nat) (convention : Convention) (room : convention.stackSize < memorySize)
    (limit : Option Int) : Emulator :=
  ⟨memorySize, convention, room, limit, blank memorySize []⟩

/-- Set up an emulator, if its memory leaves room for the tape and there is storage for it. -/
def new (available : Option Nat) (memorySize : Int) (convention : Convention) (limit : Option Int) :
    Except SetupFailure Emulator :=
  if room : convention.stackSize < memorySize then
    match cellCount available memorySize with
    | .error failure => .error (.storage failure)
    | .ok _ =>
      match memorySize with
      | .ofNat size => .ok (ofSize size convention room limit)
      | .negSucc _ => .error .negativeSize
  else .error .noRoomForTape

def defaultMemorySize : Int := 1048576

/-- The address of the first cell of the tape. -/
def tapeBase (emulator : Emulator) : Nat :=
  (emulator.memorySize - emulator.convention.stackSize).toNat

def reset (emulator : Emulator) (input : List Int) : Emulator :=
  { emulator with state := blank emulator.memorySize input }

/-- The result that a finished run leaves, if the pointer register exists. -/
def resultOf (emulator : Emulator) (s : State) (steps : Nat) : Except Failure Result :=
  match s.registers.getNamed? emulator.convention.pointerRegister with
  | none => .error (.unknownRegister emulator.convention.pointerRegister)
  | some address =>
    .ok { output := s.output
          tape := s.memory.extract emulator.tapeBase emulator.memorySize
          pointer := address - emulator.tapeBase
          steps := steps
          exitStatus := s.exitStatus }

def outcome (emulator : Emulator) (run : Run State (Nat × Fault)) : Except Failure Result :=
  match run.ending with
  | .halted => emulator.resultOf run.state run.steps
  | .failed (line, fault) => .error (.fault line fault)
  | .exhausted => .error .outOfSteps
  | .paused => .error .interrupted

/-- Execute a listing from a state, for at most `turns` steps. -/
def execute (emulator : Emulator) (s : State) (listing : Listing) (turns : Nat) :
    Run State (Nat × Fault) :=
  (system (Code.ofListing s.registers.furtherName listing)).drive (stepBudget emulator.limit)
    turns 0 s

/-- The state in which bare lines start. -/
def initial (emulator : Emulator) (input : List Int) : State :=
  let s := blank emulator.memorySize input
  { s with
    registers := (s.registers.set .rsp emulator.tapeBase).setNamed
      emulator.convention.pointerRegister emulator.tapeBase }

def runLines (emulator : Emulator) (lines : List (List Char)) (input : List Int) (turns : Nat) :
    Except Failure Result × Emulator :=
  let run := emulator.execute (emulator.initial input) (Listing.ofLines lines) turns
  (emulator.outcome run, { emulator with state := run.state })

def runText (emulator : Emulator) (text : List Char) (input : List Int) (turns : Nat) :
    Except Failure Result × Emulator :=
  let run := emulator.execute (blank emulator.memorySize input)
    (Listing.ofLines (Text.splitLines text)) turns
  (emulator.outcome run, { emulator with state := run.state })

def peek (emulator : Emulator) (address length : Int) : Array UInt8 :=
  cellsBetween emulator.state.memory address (address + length)

end Emulator

end Brainfuck.Machine
