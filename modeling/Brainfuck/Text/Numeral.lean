import Brainfuck.Text.Basic

/-!
# Numerals

Numbers are written in base sixteen with small letters behind `0x`, a negative one with its sign in front.

There are two readings of a text as an integer. `integer?` takes a decimal numeral. `literal?` also knows the
bases behind `0x`, `0o` and `0b`, and refuses a decimal numeral that starts with a zero and is not zero. Both
allow blanks around, one sign in front, the digits of any script, and single underscores between digits.

A numeral may have any length here. The host refuses to read a decimal one of more than 4300 digits; that
limit of its own is not modelled.
-/

namespace Brainfuck.Text

/-! ## Writing -/

def hex (n : Nat) : List Char :=
  '0' :: 'x' :: Nat.toDigits 16 n

def signedHex : Int → List Char
  | .ofNat n => hex n
  | .negSucc n => '-' :: hex (n + 1)

/-! ## Digits of all scripts

Unicode 14 has 66 scripts' worth of decimal digits. Each set is ten consecutive code points in the order of
their values, so a table of the zeros is enough. -/

/-- The digit zero of every set of decimal digits. -/
def digitZeros : List Nat :=
  [0x30, 0x660, 0x6f0, 0x7c0, 0x966, 0x9e6, 0xa66, 0xae6, 0xb66, 0xbe6, 0xc66, 0xce6, 0xd66, 0xde6,
   0xe50, 0xed0, 0xf20, 0x1040, 0x1090, 0x17e0, 0x1810, 0x1946, 0x19d0, 0x1a80, 0x1a90, 0x1b50,
   0x1bb0, 0x1c40, 0x1c50, 0xa620, 0xa8d0, 0xa900, 0xa9d0, 0xa9f0, 0xaa50, 0xabf0, 0xff10, 0x104a0,
   0x10d30, 0x11066, 0x110f0, 0x11136, 0x111d0, 0x112f0, 0x11450, 0x114d0, 0x11650, 0x116c0,
   0x11730, 0x118e0, 0x11950, 0x11c50, 0x11d50, 0x11da0, 0x16a60, 0x16ac0, 0x16b50, 0x1d7ce,
   0x1d7d8, 0x1d7e2, 0x1d7ec, 0x1d7f6, 0x1e140, 0x1e2f0, 0x1e950, 0x1fbf0]

/-- The value of a decimal digit of any script. -/
def digitValue? (c : Char) : Option Nat :=
  (digitZeros.find? fun first => decide (first ≤ c.toNat) && decide (c.toNat < first + 10)).map
    (c.toNat - ·)

/-! ## Reading -/

def isMargin (c : Char) : Bool :=
  (0x09 ≤ c.toNat && c.toNat ≤ 0x0d) || c.toNat == 0x20

/-- The plain form of a character of a numeral: a decimal digit of another script is the ASCII
digit of its value, a blank beyond ASCII is a space, and all other such characters are refused as a
question mark is. -/
def plainNumeralChar (c : Char) : Char :=
  if c.toNat < 0x7f then c
  else if isBlank c then ' '
  else match digitValue? c with
    | some value => Char.ofNat ('0'.toNat + value)
    | none => '?'

def hexDigitValue? (c : Char) : Option Nat :=
  if c.isDigit then some (c.toNat - '0'.toNat)
  else if 'a' ≤ c ∧ c ≤ 'f' then some (c.toNat - 'a'.toNat + 10)
  else if 'A' ≤ c ∧ c ≤ 'F' then some (c.toNat - 'A'.toNat + 10)
  else none

def digitIn? (base : Nat) (c : Char) : Option Nat :=
  (hexDigitValue? c).filter (· < base)

/-- Read digits behind a first part of value `value`. An underscore stands only between two
digits. -/
def digitsFrom? (base : Nat) : (value : Nat) → List Char → Option Nat
  | value, [] => some value
  | value, '_' :: c :: rest => do digitsFrom? base (value * base + (← digitIn? base c)) rest
  | value, c :: rest => do digitsFrom? base (value * base + (← digitIn? base c)) rest

def digits? (base : Nat) : List Char → Option Nat
  | [] => none
  | c :: rest => do digitsFrom? base (← digitIn? base c) rest

/-- Read the digits behind a base mark, where one underscore may stand in front. -/
def markedDigits? (base : Nat) : List Char → Option Nat
  | '_' :: rest => digits? base rest
  | rest => digits? base rest

/-- Read an unsigned numeral whose base is told by its mark. -/
def magnitude? : List Char → Option Nat
  | '0' :: 'x' :: rest | '0' :: 'X' :: rest => markedDigits? 16 rest
  | '0' :: 'o' :: rest | '0' :: 'O' :: rest => markedDigits? 8 rest
  | '0' :: 'b' :: rest | '0' :: 'B' :: rest => markedDigits? 2 rest
  | '0' :: rest => (digits? 10 ('0' :: rest)).filter (· = 0)
  | rest => digits? 10 rest

def signed? (magnitude : List Char → Option Nat) : List Char → Option Int
  | '-' :: rest => (magnitude rest).map fun n => -(n : Int)
  | '+' :: rest => (magnitude rest).map Int.ofNat
  | rest => (magnitude rest).map Int.ofNat

/-- A numeral in plain characters, without the margins. -/
def numeralBody (s : List Char) : List Char :=
  dropEndWhile isMargin ((s.map plainNumeralChar).dropWhile isMargin)

def literal? (s : List Char) : Option Int :=
  signed? magnitude? (numeralBody s)

def integer? (s : List Char) : Option Int :=
  signed? (digits? 10) (numeralBody s)

end Brainfuck.Text
