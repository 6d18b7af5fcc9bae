import Brainfuck.Budget
import Brainfuck.Cells
import Brainfuck.Source

/-!
# The reference interpreter

One operator is executed per step, on a tape of byte cells that wrap around. Moving off the tape is
a fault. A read beyond the end of the input stores a chosen value, or leaves the cell alone.

The pairs of matching brackets are found in one pass over the text, with a stack of the open ones, and kept in
a table that sends each bracket to its partner.

The configuration keeps the pointer on the tape; a fault says by how much a failed move had already
displaced it (`Fault.displacement`).
-/

namespace Brainfuck

/-! ## Bracket pairs -/

/-- The bracket pairs closed from position `i` on, where `opened` holds the positions of the open
brackets, innermost first. -/
def bracketPairsFrom : (i : Nat) → (opened : List Nat) → List Char → List (Nat × Nat)
  | _, _, [] => []
  | i, opened, '[' :: rest => bracketPairsFrom (i + 1) (i :: opened) rest
  | i, innermost :: outer, ']' :: rest => (innermost, i) :: bracketPairsFrom (i + 1) outer rest
  | i, opened, _ :: rest => bracketPairsFrom (i + 1) opened rest

/-- The pairs of positions of matching brackets, in the order in which they close. -/
def bracketPairs (text : List Char) : List (Nat × Nat) :=
  bracketPairsFrom 0 [] text

/-- The other member of the pair a position belongs to. -/
def partner? (pairs : List (Nat × Nat)) (i : Nat) : Option Nat :=
  pairs.findSome? fun (first, last) =>
    if first = i then some last else if last = i then some first else none

/-- For each position of a text, the partner of the bracket standing there. -/
def jumpTable (text : List Char) : Array (Option Nat) :=
  let pairs := bracketPairs text
  (List.range text.length).map (partner? pairs) |>.toArray

namespace Interpreter

/-! ## Configurations -/

inductive Fault where
  | beyondEnd
  | beforeStart
  /-- A cell of a tape without cells was looked at. -/
  | noCell
  /-- A value was to be stored in a tape without cells. -/
  | noCellToStore
  deriving DecidableEq

def Fault.message : Fault → String
  | beyondEnd => "Pointer moved beyond the tape length."
  | beforeStart => "Pointer moved before start of tape."
  | noCell => "list index out of range"
  | noCellToStore => "list assignment index out of range"

/-- How far the failed step had moved the pointer. -/
def Fault.displacement : Fault → Int
  | beyondEnd => 1
  | beforeStart => -1
  | noCell => 0
  | noCellToStore => 0

/-- A program ready to run: its text and the partner of each bracket. -/
structure Code where
  text : Array Char
  jumps : Array (Option Nat)

def Code.ofText (text : List Char) : Code :=
  ⟨text.toArray, jumpTable text⟩

/-- Where execution goes on when the bracket at `pc` jumps: behind its partner. -/
def Code.jump (code : Code) (pc : Nat) : Nat :=
  match code.jumps[pc]? with
  | some (some target) => target + 1
  | _ => pc + 1

structure Config where
  pc : Nat := 0
  tape : Array UInt8
  pointer : Nat := 0
  input : List UInt8
  output : Array UInt8 := #[]
  deriving DecidableEq

namespace Config

def advance (c : Config) : Config :=
  { c with pc := c.pc + 1 }

def change (f : UInt8 → UInt8) (c : Config) : Except (Fault × Config) Config :=
  if h : c.pointer < c.tape.size then
    .ok { c with pc := c.pc + 1, tape := c.tape.set c.pointer (f c.tape[c.pointer]) }
  else .error (.noCell, c)

def store (value : UInt8) (c : Config) : Except (Fault × Config) Config :=
  if h : c.pointer < c.tape.size then
    .ok { c with pc := c.pc + 1, tape := c.tape.set c.pointer value }
  else .error (.noCellToStore, c)

def emit (c : Config) : Except (Fault × Config) Config :=
  if h : c.pointer < c.tape.size then
    .ok { c with pc := c.pc + 1, output := c.output.push c.tape[c.pointer] }
  else .error (.noCell, c)

/-- Store the next byte of the input and go on. At the end of the input, store the value that
stands for it, or leave the cell as it is. -/
def read (atEnd : Option UInt8) (c : Config) : Except (Fault × Config) Config :=
  match c.input with
  | value :: rest => store value { c with input := rest }
  | [] =>
    match atEnd with
    | some value => store value c
    | none => .ok c.advance

/-- Jump if the current cell is zero, when `onZero` holds, or if it is not, when it does not. -/
def branch (code : Code) (onZero : Bool) (c : Config) : Except (Fault × Config) Config :=
  if h : c.pointer < c.tape.size then
    if (c.tape[c.pointer] == 0) == onZero then .ok { c with pc := code.jump c.pc }
    else .ok c.advance
  else .error (.noCell, c)

def execute (code : Code) (atEnd : Option UInt8) (op : Operator) (c : Config) :
    Except (Fault × Config) Config :=
  match op with
  | .right =>
    if c.pointer + 1 < c.tape.size then .ok { c with pc := c.pc + 1, pointer := c.pointer + 1 }
    else .error (.beyondEnd, c)
  | .left =>
    if c.pointer = 0 then .error (.beforeStart, c)
    else .ok { c with pc := c.pc + 1, pointer := c.pointer - 1 }
  | .increment => c.change (· + 1)
  | .decrement => c.change (· - 1)
  | .output => c.emit
  | .input => c.read atEnd
  | .openLoop => c.branch code true
  | .closeLoop => c.branch code false

/-- Execute the operator at the program counter; a character that is no operator does nothing. -/
def step (code : Code) (atEnd : Option UInt8) (c : Config) : Except (Fault × Config) Config :=
  match code.text[c.pc]?.bind Operator.ofChar? with
  | some op => c.execute code atEnd op
  | none => .ok c.advance

end Config

/-- The interpreter as a system: it halts behind the last character. -/
def system (code : Code) (atEnd : Option UInt8) : System Config Fault where
  halted := fun c => code.text.size ≤ c.pc
  step := Config.step code atEnd

end Interpreter

end Brainfuck
