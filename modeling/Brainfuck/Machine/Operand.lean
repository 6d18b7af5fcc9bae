import Brainfuck.Machine.Register
import Brainfuck.Text.Basic
import Brainfuck.Text.Numeral

/-!
# Operands

What an operand's text stands for: a register, the low byte of one, a byte of memory, or a number.
A memory operand is an address in brackets, with or without the word `byte` in front. The address is
a sum of registers and numbers; blanks inside do not matter, and of several signs in a row the last
counts.
-/

namespace Brainfuck.Machine

/-- A summand of an address. -/
inductive Term where
  | register (ref : RegisterRef)
  | number (value : Int)
  deriving DecidableEq

inductive Address where
  /-- A sum of signed terms. -/
  | sum (terms : List (Int × Term))
  /-- A summand is neither a register nor a number. -/
  | badTerm (text : List Char)
  /-- There are no brackets around it. -/
  | malformed
  deriving DecidableEq

inductive Operand.Form where
  | register (ref : RegisterRef)
  | lowByte (r : Register)
  | memory (address : Address)
  | number (value : Int)
  | unknown
  deriving DecidableEq

/-- An operand: its text and what it stands for. -/
structure Operand where
  text : List Char
  form : Operand.Form
  deriving DecidableEq

/-- A term that has been read, unless it is empty; `term` holds its characters, last first. -/
def finishTerm (sign : Int) (term : List Char) : List (Int × List Char) :=
  if term.isEmpty then [] else [(sign, term.reverse)]

/-- The signed terms of an address, behind a sign and the characters of a term, last first. -/
def splitTermsFrom : (sign : Int) → (term : List Char) → List Char → List (Int × List Char)
  | sign, term, [] => finishTerm sign term
  | sign, term, '+' :: rest => finishTerm sign term ++ splitTermsFrom 1 [] rest
  | sign, term, '-' :: rest => finishTerm sign term ++ splitTermsFrom (-1) [] rest
  | sign, term, c :: rest => splitTermsFrom sign (c :: term) rest

def splitTerms (s : List Char) : List (Int × List Char) :=
  splitTermsFrom 1 [] s

/-- Read a term; a name of a register is never read as a number. -/
def Term.read? (furtherName : Option (List Char)) (s : List Char) : Option Term :=
  match RegisterRef.ofName? furtherName s with
  | some ref => some (.register ref)
  | none => (Text.literal? s).map .number

/-- Read signed terms; the first that cannot be read is reported. -/
def readTerms (furtherName : Option (List Char)) :
    List (Int × List Char) → Except (List Char) (List (Int × Term))
  | [] => .ok []
  | (sign, text) :: others =>
    match Term.read? furtherName text with
    | none => .error text
    | some term => (readTerms furtherName others).map ((sign, term) :: ·)

def Address.read (furtherName : Option (List Char)) (s : List Char) : Address :=
  let text := Text.trim (Text.eraseFirst "byte".toList s)
  if text.head? = some '[' ∧ text.getLast? = some ']' then
    match readTerms furtherName (splitTerms ((text.drop 1).dropLast.filter (· ≠ ' '))) with
    | .ok terms => .sum terms
    | .error term => .badTerm term
  else .malformed

namespace Operand

/-- Read what an operand stands for. The first reading that fits counts. -/
def Form.read (furtherName : Option (List Char)) (s : List Char) : Form :=
  match RegisterRef.ofName? furtherName s with
  | some ref => .register ref
  | none =>
    match Register.ofLowByteName? s with
    | some r => .lowByte r
    | none =>
      if s.contains '[' then .memory (Address.read furtherName s)
      else match Text.literal? s with
        | some value => .number value
        | none => .unknown

def read (furtherName : Option (List Char)) (s : List Char) : Operand :=
  ⟨s, Form.read furtherName s⟩

/-- Whether comparisons with an operand as the left side look at one byte only. -/
def isByteWide (operand : Operand) : Bool :=
  (Register.ofLowByteName? operand.text).isSome || "byte".toList.isPrefixOf operand.text ||
    "[".toList.isPrefixOf operand.text

end Operand

end Brainfuck.Machine
