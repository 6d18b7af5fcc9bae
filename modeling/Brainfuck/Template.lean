import Brainfuck.Assembly
import Brainfuck.Text.Basic

/-!
# Program templates

A template is a program text with placeholders between percent signs. Filling one replaces the
placeholders one kind after the other, the program lines last, so that what stands in the lines is
copied as it is. Whether the program has a place is tested on the template before any replacement.
-/

namespace Brainfuck.Template

def sourceMark : List Char := "%SOURCE%".toList

def stackSizeRegisterMark : List Char := "%STACK_SIZE_REGISTER%".toList

def stackSizeMark : List Char := "%STACK_SIZE%".toList

def pointerRegisterMark : List Char := "%POINTER_REGISTER%".toList

inductive Failure where
  | noSourceMark
  deriving DecidableEq

def Failure.message : Failure → String
  | noSourceMark => "Template has no %SOURCE% placeholder"

/-- Fill a template with program lines and the names and sizes of a convention. -/
def fill (template : List Char) (lines : List (List Char)) (convention : Convention) :
    Except Failure (List Char) :=
  if Text.occursIn sourceMark template then
    .ok (template
      |> Text.substitute stackSizeRegisterMark convention.stackSizeRegister
      |> Text.substitute stackSizeMark convention.stackSizeLiteral
      |> Text.substitute pointerRegisterMark convention.pointerRegister
      |> Text.substitute sourceMark (Text.joinLines lines))
  else .error .noSourceMark

/-- The lines of the template that comes with the library: reserve the tape on the stack, clear it,
run the program, and exit with status zero. -/
def bundledLines : List String :=
  ["; Brainfuck program translated by bfnasm (NASM, x86-64 Linux)",
    "",
    "\tglobal\t_start",
    "",
    "\tsection\t.text",
    "_start:",
    "\tmov\t%STACK_SIZE_REGISTER%, %STACK_SIZE%",
    "\tsub\trsp, %STACK_SIZE_REGISTER%",
    "\tmov\t%POINTER_REGISTER%, rsp",
    "\tmov\trdi, rsp",
    ".clear:",
    "\tmov\tbyte [rdi], 0x0",
    "\tadd\trdi, 0x1",
    "\tsub\t%STACK_SIZE_REGISTER%, 0x1",
    "\tjne\t.clear",
    "%SOURCE%",
    "\tmov\trax, 0x3c",
    "\txor\trdi, rdi",
    "\tsyscall"]

/-- The template that comes with the library. Every line ends in a line feed. -/
def bundled : List Char :=
  bundledLines.flatMap fun line => line.toList ++ ['\n']

end Brainfuck.Template
