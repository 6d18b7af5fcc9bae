/-!
# Program texts

A program is a text of eight operators in which brackets pair up. `flaw?` finds the first place
where a text fails to be one:

* a character that is no operator, or a closing bracket with nothing to close, whichever comes
  first;
* otherwise the bracket opened last of those that stay open.

A flaw is a cause; its wording stands in `Flaw.message` and its record form in `Flaw.diagnosis`.

The characters of a text are Unicode scalar values. A text of the host may also hold lone surrogates, which would be
unknown operators like all others and are left out.
-/

namespace Brainfuck

inductive Operator where
  | right
  | left
  | increment
  | decrement
  | output
  | input
  | openLoop
  | closeLoop
  deriving DecidableEq

def Operator.char : Operator → Char
  | .right => '>'
  | .left => '<'
  | .increment => '+'
  | .decrement => '-'
  | .output => '.'
  | .input => ','
  | .openLoop => '['
  | .closeLoop => ']'

def Operator.ofChar? (c : Char) : Option Operator :=
  match c with
  | '>' => some .right
  | '<' => some .left
  | '+' => some .increment
  | '-' => some .decrement
  | '.' => some .output
  | ',' => some .input
  | '[' => some .openLoop
  | ']' => some .closeLoop
  | _ => none

@[simp]
theorem Operator.ofChar?_char (op : Operator) : Operator.ofChar? op.char = some op := by
  cases op <;> rfl

inductive Flaw where
  | unknownOperator (character : Char) (index : Nat)
  | unopenedBracket (index : Nat)
  | unclosedBracket (index : Nat)
  deriving DecidableEq

/-- A problem with a program text in the form in which it is handed on. -/
structure Diagnosis where
  kind : String := "validation"
  index : Int
  character : Option String := none
  message : String
  deriving DecidableEq

namespace Flaw

def index : Flaw → Nat
  | unknownOperator _ i => i
  | unopenedBracket i => i
  | unclosedBracket i => i

def character : Flaw → Char
  | unknownOperator c _ => c
  | unopenedBracket _ => ']'
  | unclosedBracket _ => '['

def kind : Flaw → String
  | unknownOperator .. => "unknown_operator"
  | unopenedBracket _ => "unopened_bracket"
  | unclosedBracket _ => "unclosed_bracket"

def message : Flaw → String
  | unknownOperator c i => s!"Operator '{c}' at index {i} is not known"
  | unopenedBracket i => s!"Bracket at index {i} is not opened"
  | unclosedBracket i => s!"Bracket at index {i} is not closed"

def diagnosis (flaw : Flaw) : Diagnosis where
  kind := flaw.kind
  index := flaw.index
  character := some flaw.character.toString
  message := flaw.message

end Flaw

/-- The first flaw of a text that starts at position `i`, where `opened` holds the positions of the
brackets still open, innermost first. -/
def flawFrom? : (i : Nat) → (opened : List Nat) → List Char → Option Flaw
  | _, [], [] => none
  | _, innermost :: _, [] => some (.unclosedBracket innermost)
  | i, opened, c :: rest =>
    match Operator.ofChar? c with
    | none => some (.unknownOperator c i)
    | some .openLoop => flawFrom? (i + 1) (i :: opened) rest
    | some .closeLoop =>
      match opened with
      | [] => some (.unopenedBracket i)
      | _ :: outer => flawFrom? (i + 1) outer rest
    | some _ => flawFrom? (i + 1) opened rest

/-- The first flaw of a text, if it is not a program. -/
def flaw? (text : List Char) : Option Flaw :=
  flawFrom? 0 [] text

/-- Accept a program, or say why the text is none. -/
def ensureProgram (text : List Char) : Except Flaw Unit :=
  match flaw? text with
  | some flaw => .error flaw
  | none => .ok ()

/-- A text without its line breaks. -/
def joinSource (text : List Char) : List Char :=
  text.filter fun c => c ≠ '\r' && c ≠ '\n'

end Brainfuck
