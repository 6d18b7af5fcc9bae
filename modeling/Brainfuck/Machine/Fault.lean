import Brainfuck.Text.Numeral
import Brainfuck.Text.Quoted

/-!
# Machine faults

The reasons for which an instruction cannot be executed.
-/

namespace Brainfuck.Machine

inductive Fault where
  | unsupportedInstruction (mnemonic : List Char)
  | unknownLabel (name : List Char)
  | unsupportedCall (number : Nat)
  | malformedOperand (operand : List Char)
  | outOfRange (address : Int)
  | unsupportedOperand (operand : List Char)
  | unwritableOperand (operand : List Char)
  | missingOperand
  | badNumber (text : List Char)
  deriving DecidableEq

/-- Whether a fault is one of the machine, that is of an instruction with the operands it needs and
numbers that can be read. -/
def Fault.isReported : Fault → Bool
  | missingOperand => false
  | badNumber _ => false
  | _ => true

def inApostrophes (text : List Char) : String :=
  "'" ++ String.ofList text ++ "'"

/-- The fault of an instruction in a given line in words. The quotation of a bad number is cut to
two hundred characters. -/
def Fault.message (line : Nat) : Fault → String
  | unsupportedInstruction mnemonic =>
    s!"line {line}: unsupported instruction " ++ inApostrophes mnemonic
  | unknownLabel name => s!"line {line}: unknown label " ++ inApostrophes name
  | unsupportedCall number => s!"line {line}: unsupported system call {number}"
  | malformedOperand operand =>
    s!"line {line}: malformed memory operand " ++ inApostrophes operand
  | outOfRange address =>
    s!"line {line}: memory access out of range at " ++ String.ofList (Text.signedHex address)
  | unsupportedOperand operand => s!"line {line}: unsupported operand " ++ inApostrophes operand
  | unwritableOperand operand =>
    s!"line {line}: cannot write to operand " ++ inApostrophes operand
  | missingOperand => "list index out of range"
  | badNumber text =>
    "invalid literal for int() with base 0: " ++
      String.ofList ((Text.quoted text).toList.take 200)

end Brainfuck.Machine
