import Brainfuck.Cells
import Brainfuck.Compiler
import Brainfuck.Machine.Emulator
import Brainfuck.Text.Encoding

/-!
# The handlers of the service

Check a program, translate it, and run it in the emulator. A program with a flaw is an answer of the first
handler and an error of the other two.

The handlers are total functions of what is asked of them. What the host can do to them is not modelled: it may
give up on a program whose loops are nested some hundreds deep, or on an emulator for which it has no storage.
Nor are lone surrogates, which a text of the host may hold and which cannot be rendered in an answer: the
characters of a text are Unicode scalar values.
-/

namespace Brainfuck.Service

/-! ## What is asked -/

/-- The text of a program, without line breaks. -/
structure CheckRequest where
  code : List Char := []
  deriving DecidableEq

/-- A program to translate, and whether it is wanted as a whole program too. -/
structure CompileRequest extends CheckRequest where
  template : Bool := true
  deriving DecidableEq

structure ExecuteRequest extends CheckRequest where
  input : List Char := []
  maxSteps : Int := 1000000
  tapeWindow : Int := 10
  deriving DecidableEq

/-! ## What is answered -/

structure RunReport where
  output : List Char
  pointer : Int
  window : Window
  steps : Nat
  deriving DecidableEq

/-- The answer of a handler. -/
inductive Answer where
  | checked (flaw : Option Flaw)
  | translated (lines : List (List Char)) (assembly : Option (List Char))
  | ran (report : RunReport)
  | flawed (flaw : Flaw)
  /-- The step budget was used up. -/
  | exhausted (message : String)
  /-- The machine failed. -/
  | faulted (message : String)
  /-- A failure that the handler does not expect. -/
  | crashed
  deriving DecidableEq

def Answer.status : Answer → Nat
  | checked _ => 200
  | translated .. => 200
  | ran _ => 200
  | flawed _ => 422
  | exhausted _ => 409
  | faulted _ => 400
  | crashed => 500

def Answer.ofCompilerFailure : Compiler.Failure → Answer
  | .flaw flaw => .flawed flaw
  | .generation _ => .crashed
  | .template _ => .crashed

def Answer.ofMachineFailure (failure : Machine.Failure) : Answer :=
  match failure with
  | .outOfSteps => .exhausted failure.message
  | .fault _ fault => if fault.isReported then .faulted failure.message else .crashed
  | .unknownRegister _ => .crashed
  | .interrupted => .crashed

/-! ## The handlers -/

def checkProgram (request : CheckRequest) : Answer :=
  .checked (flaw? request.code)

def compileProgram (compiler : Compiler) (request : CompileRequest) : Answer :=
  match compiler.lineTexts request.code with
  | .error failure => .ofCompilerFailure failure
  | .ok lines =>
    if request.template then
      match compiler.fillTemplate lines with
      | .error failure => .ofCompilerFailure failure
      | .ok assembly => .translated lines (some assembly)
    else .translated lines none

/-- The report of a finished run, with the cells around the pointer. -/
def reportOf (tapeWindow : Int) (result : Machine.Result) : RunReport where
  output := Text.decodeLatin1 result.output.toList
  pointer := result.pointer
  window := windowAround result.tape result.pointer tapeWindow
  steps := result.steps

/-- Run a program, in an emulator of the default size. -/
def executeProgram (compiler : Compiler) (request : ExecuteRequest) : Answer :=
  match compiler.lineTexts request.code with
  | .error failure => .ofCompilerFailure failure
  | .ok lines =>
    let limit := some request.maxSteps
    match Machine.Emulator.new none Machine.Emulator.defaultMemorySize compiler.convention limit with
    | .error _ => .crashed
    | .ok emulator =>
      let input := request.input.map fun c => (c.toNat : Int)
      match (emulator.runLines lines input (turnsFor (stepBudget limit) 0)).1 with
      | .error failure => .ofMachineFailure failure
      | .ok result => .ran (reportOf request.tapeWindow result)

end Brainfuck.Service
