import Brainfuck.Codegen.Recogniser
import Brainfuck.Codegen.Rule

/-!
# The rules of the language

The five rules that together cover every program, and two rules for other uses: one that leaves its
work open and one that takes a fixed number of characters.

Outputs of a run share one `write` system call: the run's bytes are collected in a buffer below the
stack pointer. Reads of a run share one `read` system call. A loop whose body needs no instructions
is dropped with its labels and branches.
-/

namespace Brainfuck.Codegen

def op (mnemonic : String) (operands : List (List Char)) : Line :=
  .instruction mnemonic.toList operands

/-- The operand for the memory cell whose address is the given expression. -/
def cell (address : List Char) : List Char :=
  '[' :: address ++ [']']

def byteCell (address : List Char) : List Char :=
  "byte ".toList ++ cell address

/-- Add a signed number to an operand, or nothing if it is zero. -/
def shiftBy (operand : List Char) (delta : Int) (magnitude : Nat) : List Line :=
  if magnitude = 0 then []
  else [op (if delta > 0 then "add" else "sub") [operand, Text.hex magnitude]]

/-- The lines that copy the current cell into a slot of the output buffer. -/
def fillSlot (convention : Convention) (slot : Nat) : List Line :=
  [op "mov" [convention.cacheRegister, cell convention.pointerRegister],
    op "mov" [cell ("rsp+".toList ++ Text.hex slot), convention.cacheRegister]]

/-- Fill the output buffer from slot `slot` on, with the lines of the other fragments in place. -/
def fillBuffer (convention : Convention) (generate : List Char → Gen (List Line)) :
    (slot : Nat) → List (List Char) → Gen (List Line)
  | _, [] => pure []
  | slot, fragment :: others =>
    if fragment = ['.'] then do
      let rest ← fillBuffer convention generate (slot + 1) others
      pure (fillSlot convention slot ++ rest)
    else do
      let lines ← generate fragment
      let rest ← fillBuffer convention generate slot others
      pure (lines ++ rest)

namespace Rule

def print : Rule where
  kind := "PrintRun"
  name := "print"
  recognise := fun s => .ok (printRun? s)
  translate := fun convention generate text => do
    let size := Text.hex (text.count '.')
    let filled ← fillBuffer convention generate 0 (isolate ['.'] text)
    pure (op "sub" ["rsp".toList, size] :: filled ++
      [op "mov" ["rsi".toList, "rsp".toList],
        op "mov" ["rdx".toList, size],
        op "mov" ["rdi".toList, Text.hex 1],
        op "mov" ["rax".toList, Text.hex 1],
        op "syscall" [],
        op "add" ["rsp".toList, size]])

def read : Rule where
  kind := "ReadRun"
  name := "read"
  recognise := fun s => .ok (readRun? s)
  translate := fun convention _ text =>
    let count := text.count ','
    let move :=
      if count > 1 then [op "add" [convention.pointerRegister, Text.hex (count - 1)]] else []
    pure ([op "mov" ["rsi".toList, convention.pointerRegister],
      op "mov" ["rdx".toList, Text.hex count],
      op "mov" ["rdi".toList, Text.hex 0],
      op "mov" ["rax".toList, Text.hex 0],
      op "syscall" []] ++ move)

/-- A row of changes of the current cell, which counts modulo 256. -/
def arithmetic : Rule where
  kind := "ArithmeticRun"
  name := "arithmetic"
  recognise := fun s => .ok (arithmeticRun? s)
  translate := fun convention _ text =>
    let delta := netCount ['+'] ['-'] text
    pure (shiftBy (byteCell convention.pointerRegister) delta (delta.natAbs % 256))

def shift : Rule where
  kind := "PointerShiftRun"
  name := "shift"
  recognise := fun s => .ok (shiftRun? s)
  translate := fun convention _ text =>
    let delta := netCount ['>'] ['<'] text
    pure (shiftBy convention.pointerRegister delta delta.natAbs)

def loopLabel (number : Nat) : List Char :=
  ".loop_".toList ++ Nat.toDigits 10 number

def exitLabel (number : Nat) : List Char :=
  ".exit_".toList ++ Nat.toDigits 10 number

def loopLines (convention : Convention) (number : Nat) (body : List Line) : List Line :=
  [.label (loopLabel number),
    op "cmp" [byteCell convention.pointerRegister, Text.hex 0],
    op "je" [exitLabel number]] ++ body ++
  [op "jmp" [loopLabel number],
    .label (exitLabel number)]

/-- A loop. Its number is taken behind those of the loops inside it. -/
def loop : Rule where
  kind := "Loop"
  name := "loop"
  recognise := fun s => .ok (loop? s)
  translate := fun convention generate text => do
    let body := (text.drop 1).dropLast
    if body.isEmpty then pure []
    else
      let lines ← generate body
      if lines.isEmpty then pure []
      else
        let number ← freshLabel
        pure (loopLines convention number lines)

/-- A rule that leaves both parts of its work open. -/
def unspecified : Rule where
  kind := "Pattern"
  name := "pattern"
  recognise := fun _ => .error .notImplemented
  translate := fun _ _ _ => throw .notImplemented

/-- A rule that takes the next `width` characters, fewer at the end, and writes them in one line
behind its name. -/
def fixed (name : String) (width : Nat) : Rule where
  kind := "Fixed"
  name := name
  recognise := fun s =>
    .ok (match s.take width with
      | [] => none
      | text => some text)
  translate := fun _ _ text => pure [.verbatim (name.toList ++ ' ' :: text)]

/-- The rules for the language, in order of precedence. -/
def standard : List Rule :=
  [print, read, arithmetic, shift, loop]

end Rule

end Brainfuck.Codegen
