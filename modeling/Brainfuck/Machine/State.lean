import Brainfuck.Machine.Code

/-!
# Machine states

Registers, memory, the zero flag, and the streams of the machine; reading operands and writing to
them. Registers keep 64 bits of what is written to them, bytes keep eight.

A place is a target that was found to be writable, so that writing to it cannot fail.
-/

namespace Brainfuck.Machine

structure State where
  pc : Nat := 0
  registers : Registers := {}
  memory : Array UInt8
  zeroFlag : Bool := false
  output : Array UInt8 := #[]
  input : List UInt8 := []
  exitStatus : Option UInt8 := none
  deriving DecidableEq

/-- The value of an integer in a word of 64 bits. -/
def word (value : Int) : Nat :=
  (value % 0x10000000000000000).toNat

inductive Place where
  | register (ref : RegisterRef)
  | lowByte (r : Register)
  | memory (address : Nat)
  deriving DecidableEq

/-- The value that a place keeps of a value written to it. -/
def Place.kept (value : Int) : Place → Nat
  | register _ => word value
  | lowByte _ => (value % 256).toNat
  | memory _ => (value % 256).toNat

namespace State

def termValue (s : State) : Term → Int
  | .register ref => s.registers.getRef ref
  | .number value => value

/-- The address that a sum of signed terms gives. -/
def sumOf (s : State) (terms : List (Int × Term)) : Int :=
  terms.foldr (fun (sign, term) total => sign * s.termValue term + total) 0

/-- Accept an address from which `length` bytes lie in the memory. -/
def checkRange (s : State) (address : Int) (length : Nat) : Except Fault Nat :=
  if address < 0 ∨ address + length > s.memory.size then .error (.outOfRange address)
  else .ok address.toNat

/-- The address a memory operand with the given text stands for. -/
def resolve (s : State) (text : List Char) : Address → Except Fault Nat
  | .malformed => .error (.malformedOperand text)
  | .badTerm term => .error (.badNumber term)
  | .sum terms => s.checkRange (s.sumOf terms) 1

def value (s : State) (operand : Operand) : Except Fault Int :=
  match operand.form with
  | .register ref => .ok (s.registers.getRef ref)
  | .lowByte r => .ok (s.registers.get r % 256 : Nat)
  | .memory address =>
    match s.resolve operand.text address with
    | .ok address => .ok (s.memory.getD address 0).toNat
    | .error fault => .error fault
  | .number value => .ok value
  | .unknown => .error (.unsupportedOperand operand.text)

def place (s : State) (operand : Operand) : Except Fault Place :=
  match operand.form with
  | .register ref => .ok (.register ref)
  | .lowByte r => .ok (.lowByte r)
  | .memory address =>
    match s.resolve operand.text address with
    | .ok address => .ok (.memory address)
    | .error fault => .error fault
  | .number _ => .error (.unwritableOperand operand.text)
  | .unknown => .error (.unwritableOperand operand.text)

def put (s : State) (place : Place) (value : Int) : State :=
  match place with
  | .register ref => { s with registers := s.registers.setRef ref (place.kept value) }
  | .lowByte r =>
    let old := s.registers.get r
    { s with registers := s.registers.set r ((old - old % 256) % 0x10000000000000000 + place.kept value) }
  | .memory address =>
    { s with memory := s.memory.setIfInBounds address (UInt8.ofNat (place.kept value)) }

def advance (s : State) : State :=
  { s with pc := s.pc + 1 }

end State

end Brainfuck.Machine
