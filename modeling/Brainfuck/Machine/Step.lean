import Brainfuck.Budget
import Brainfuck.Machine.State

/-!
# Executing instructions

A step first finds out all it needs, which may fail, and then changes the state, which cannot fail.
So a failing step leaves the state as it was, with one exception: a system call that reads into a
place outside the memory has already taken its bytes from the input.
-/

namespace Brainfuck.Machine

/-- The result of an arithmetic operation. An exclusive or is taken of words, which is enough since
no place keeps more of it. -/
def Arithmetic.apply (left right : Int) : Arithmetic → Int
  | .add => left + right
  | .sub => left - right
  | .xor => (word left ^^^ word right : Nat)

def Condition.holds (zeroFlag : Bool) : Condition → Bool
  | .always => true
  | .ifZero => zeroFlag
  | .ifNotZero => !zeroFlag

/-- Write bytes into the memory from an address on. -/
def writeBytes (memory : Array UInt8) (address : Nat) : List UInt8 → Array UInt8
  | [] => memory
  | byte :: rest => writeBytes (memory.setIfInBounds address byte) (address + 1) rest

namespace State

def move (s : State) (target source : Operand) : Except (Fault × State) State :=
  match s.value source with
  | .error fault => .error (fault, s)
  | .ok value =>
    match s.place target with
    | .error fault => .error (fault, s)
    | .ok place => .ok (s.put place value).advance

/-- The value of an operand that may be missing. -/
def valueOf? (s : State) : Option Operand → Except Fault Int
  | none => .error .missingOperand
  | some operand => s.value operand

/-- Combine two values into the place of the first. The zero flag tells whether what the place
keeps is zero. -/
def combine (s : State) (op : Arithmetic) (target : Operand) (source : Option Operand) :
    Except (Fault × State) State :=
  match s.value target with
  | .error fault => .error (fault, s)
  | .ok left =>
    match s.valueOf? source with
    | .error fault => .error (fault, s)
    | .ok right =>
      match s.place target with
      | .error fault => .error (fault, s)
      | .ok place =>
        let result := op.apply left right
        .ok ({ s with zeroFlag := place.kept result == 0 }.put place result).advance

/-- Compare two values; the zero flag tells whether they agree in the bits looked at. -/
def compare (s : State) (left : Operand) (right : Option Operand) :
    Except (Fault × State) State :=
  match s.value left with
  | .error fault => .error (fault, s)
  | .ok first =>
    match s.valueOf? right with
    | .error fault => .error (fault, s)
    | .ok second =>
      let values : Int := if left.isByteWide then 0x100 else 0x10000000000000000
      .ok { s with zeroFlag := (first - second) % values == 0 }.advance

/-- The state behind a system call that returned `result`. -/
def returning (s : State) (result : Nat) : State :=
  { s with registers := (s.registers.set .rax result).set .rcx (s.pc + 1) }.advance

def readInput (s : State) : Except (Fault × State) State :=
  let address := s.registers.get .rsi
  let count := s.registers.get .rdx
  let chunk := s.input.take count
  let rest := s.input.drop count
  match s.checkRange address chunk.length with
  | .error fault => .error (fault, { s with input := rest })
  | .ok address =>
    .ok ({ s with memory := writeBytes s.memory address chunk, input := rest }.returning chunk.length)

def writeOutput (s : State) : Except (Fault × State) State :=
  let address := s.registers.get .rsi
  let count := s.registers.get .rdx
  match s.checkRange address count with
  | .error fault => .error (fault, s)
  | .ok address =>
    .ok ({ s with output := s.output ++ s.memory.extract address (address + count) }.returning count)

def exit (s : State) : State :=
  { s with
    exitStatus := some (UInt8.ofNat (s.registers.get .rdi))
    registers := s.registers.set .rcx (s.pc + 1) }.advance

/-- Perform the system call whose number stands in `rax`. -/
def systemCall (s : State) : Except (Fault × State) State :=
  match s.registers.get .rax with
  | 0 => s.readInput
  | 1 => s.writeOutput
  | 60 => .ok s.exit
  | number => .error (.unsupportedCall number, s)

def perform (s : State) : Action → Except (Fault × State) State
  | .move target source => s.move target source
  | .combine op target source => s.combine op target source
  | .compare left right => s.compare left right
  | .jump condition target =>
    if condition.holds s.zeroFlag then .ok { s with pc := target } else .ok s.advance
  | .systemCall => s.systemCall
  | .idle => .ok s.advance
  | .refuse fault => .error (fault, s)

/-- Execute the instruction at the program counter. A fault comes with the line it arose in. -/
def step (code : Code) (s : State) : Except ((Nat × Fault) × State) State :=
  match code[s.pc]? with
  | none => .ok s
  | some (line, action) =>
    match s.perform action with
    | .ok s' => .ok s'
    | .error (fault, s') => .error ((line, fault), s')

end State

/-- The machine as a system: it halts behind the last instruction, or once it has exited. -/
def system (code : Code) : System State (Nat × Fault) where
  halted := fun s => code.size ≤ s.pc || s.exitStatus.isSome
  step := State.step code

end Brainfuck.Machine
