import Brainfuck.Assembly
import Brainfuck.Machine.Fault
import Brainfuck.Machine.Operand

/-!
# Machine code

A listing made ready for execution: mnemonics and operands are read, and labels are resolved, once.
An instruction that cannot be executed becomes one that fails when it is reached.
-/

namespace Brainfuck.Machine

/-- The operations that combine two values and set the zero flag. -/
inductive Arithmetic where
  | add
  | sub
  | xor
  deriving DecidableEq

inductive Condition where
  | always
  | ifZero
  | ifNotZero
  deriving DecidableEq

/-- What an instruction does. The second operand of an arithmetic operation or a comparison is
missed only after the first was read. -/
inductive Action where
  | move (target source : Operand)
  | combine (op : Arithmetic) (target : Operand) (source : Option Operand)
  | compare (left : Operand) (right : Option Operand)
  | jump (condition : Condition) (target : Nat)
  | systemCall
  | idle
  | refuse (fault : Fault)
  deriving DecidableEq

def Arithmetic.ofMnemonic? (s : List Char) : Option Arithmetic :=
  if s = "add".toList then some .add
  else if s = "sub".toList then some .sub
  else if s = "xor".toList then some .xor
  else none

def Condition.ofMnemonic? (s : List Char) : Option Condition :=
  if s = "jmp".toList then some .always
  else if s = "je".toList ∨ s = "jz".toList then some .ifZero
  else if s = "jne".toList ∨ s = "jnz".toList then some .ifNotZero
  else none

namespace Action

def ofJump (target? : List Char → Option Nat) (condition : Condition) :
    List (List Char) → Action
  | [] => .refuse .missingOperand
  | name :: _ =>
    match target? name with
    | some target => .jump condition target
    | none => .refuse (.unknownLabel name)

def ofOperands (mnemonic : List Char) (operands : List Operand) : Action :=
  if mnemonic = "mov".toList then
    match operands with
    | target :: source :: _ => .move target source
    | _ => .refuse .missingOperand
  else if mnemonic = "cmp".toList then
    match operands with
    | left :: others => .compare left others.head?
    | [] => .refuse .missingOperand
  else if mnemonic = "syscall".toList then .systemCall
  else if mnemonic = "nop".toList then .idle
  else match Arithmetic.ofMnemonic? mnemonic, operands with
    | some op, target :: others => .combine op target others.head?
    | some _, [] => .refuse .missingOperand
    | none, _ => .refuse (.unsupportedInstruction mnemonic)

/-- What an instruction does, given the name of the further register and the labels. -/
def ofInstruction (furtherName : Option (List Char)) (target? : List Char → Option Nat)
    (instruction : Instruction) : Action :=
  match Condition.ofMnemonic? instruction.mnemonic with
  | some condition => ofJump target? condition instruction.operands
  | none => ofOperands instruction.mnemonic (instruction.operands.map (Operand.read furtherName))

end Action

/-- A program: for each instruction its line and what it does. -/
abbrev Code : Type := Array (Nat × Action)

def Code.ofListing (furtherName : Option (List Char)) (listing : Listing) : Code :=
  let index := listing.index
  (listing.instructions.map fun instruction =>
    (instruction.line, Action.ofInstruction furtherName (index[·]?) instruction)).toArray

/-- The code of a listing in terms of the positions its labels stand for. -/
theorem Code.ofListing_eq (furtherName : Option (List Char)) (listing : Listing) :
    Code.ofListing furtherName listing =
      (listing.instructions.map fun instruction =>
        (instruction.line,
          Action.ofInstruction furtherName listing.target? instruction)).toArray := by
  have h : (fun name => listing.index[name]?) = listing.target? :=
    funext listing.getElem?_index
  simp only [Code.ofListing, h]

theorem Code.size_ofListing (furtherName : Option (List Char)) (listing : Listing) :
    (Code.ofListing furtherName listing).size = listing.instructions.length := by
  rw [Code.ofListing_eq, List.size_toArray, List.length_map]

end Brainfuck.Machine
