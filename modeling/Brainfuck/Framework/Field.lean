import Brainfuck.Text.Basic

/-!
# Fields

The framework reads the values in the body of a request as texts, booleans and integers. The reading is lax: a
number or a word can stand for a boolean, and a numeral or a whole number of any kind for an integer. A number with
a point or an exponent is whole only in the range of 64 bits.
-/

namespace Brainfuck.Framework

/-- A value in the body of a request. -/
inductive Field where
  | null
  | boolean (value : Bool)
  | integer (value : Int)
  /-- A number written with a point or an exponent: `mantissa · 10 ^ (-exponent)`. -/
  | decimal (mantissa : Int) (exponent : Nat)
  | text (value : List Char)
  | compound
  deriving DecidableEq

inductive Problem where
  | missing
  | notAnObject
  | notAText
  | notABoolean
  | badBoolean
  | notAnInteger
  | badInteger
  | fractional
  | tooLarge
  | tooSmall
  deriving DecidableEq

def Problem.code : Problem → String
  | missing => "missing"
  | notAnObject => "model_attributes_type"
  | notAText => "string_type"
  | notABoolean => "bool_type"
  | badBoolean => "bool_parsing"
  | notAnInteger => "int_type"
  | badInteger => "int_parsing"
  | fractional => "int_from_float"
  | tooLarge => "int_parsing_size"
  | tooSmall => "greater_than_equal"

/-- The integer a number is equal to. -/
def whole? (mantissa : Int) (exponent : Nat) : Option Int :=
  let unit := Int.pow 10 exponent
  if mantissa % unit = 0 then some (mantissa / unit) else none

/-- Whether a character may surround a numeral: the white space of Unicode. -/
def isSpace (c : Char) : Bool :=
  Text.inRanges [(0x09, 0x0d), (0x20, 0x20), (0x85, 0x85), (0xa0, 0xa0), (0x1680, 0x1680),
    (0x2000, 0x200a), (0x2028, 0x2029), (0x202f, 0x202f), (0x205f, 0x205f), (0x3000, 0x3000)]
    c.toNat

/-- Cut off a point with nothing but zeros behind it, one of them at least. -/
def cutDecimals (s : List Char) : List Char :=
  match s.dropWhile (· ≠ '.') with
  | '.' :: c :: rest => if (c :: rest).all (· = '0') then s.takeWhile (· ≠ '.') else s
  | _ => s

/-- Cut off a zero in front and the zeros and underscores that follow it. Where nothing else follows
the last character stays. -/
def cutZeros (s : List Char) : List Char :=
  match s with
  | '0' :: rest =>
    match rest.dropWhile fun c => c = '0' || c = '_' with
    | [] => s.drop (s.length - 1)
    | significant => significant
  | _ => s

def singleUnderscores : List Char → Bool
  | [] => true
  | ['_'] => false
  | '_' :: '_' :: _ => false
  | _ :: rest => singleUnderscores rest

/-- Leave out underscores, if every one stands between two other characters. -/
def dropUnderscores (s : List Char) : List Char :=
  if s.head? ≠ some '_' ∧ singleUnderscores s then s.filter (· ≠ '_') else s

/-- Read ASCII digits, one at least, with no zero in front of others. -/
def numeral? (digits : List Char) : Option Nat :=
  if digits.isEmpty || !digits.all Char.isDigit then none
  else if digits.head? = some '0' && digits.length ≠ 1 then none
  else some (digits.foldl (fun value c => value * 10 + (c.toNat - '0'.toNat)) 0)

def signedNumeral? : List Char → Option Int
  | '-' :: digits => (numeral? digits).map fun n => -(n : Int)
  | digits => (numeral? digits).map Int.ofNat

/-- The digits of a text behind its sign: without zeros behind a point, zeros in front and single
underscores, which are taken away in this order. -/
def significant (s : List Char) : List Char :=
  dropUnderscores (cutZeros (cutDecimals s))

/-- Read an integer with spaces around it. A minus sign in front, or behind zeros that are cut off,
makes it negative; a plus sign stands only in front of a text without another sign there. -/
def integerText? (s : List Char) : Option Int :=
  match Text.dropEndWhile isSpace (s.dropWhile isSpace) with
  | '+' :: '-' :: _ => none
  | '+' :: rest => signedNumeral? (significant rest)
  | '-' :: rest => (numeral? (significant rest)).map fun n => -(n : Int)
  | rest => signedNumeral? (significant rest)

def fitsWord (n : Int) : Bool :=
  -0x8000000000000000 ≤ n && n < 0x8000000000000000

/-- Whether an integer lies between the bounds of 64 bits with a sign, of which neither is reached. -/
def insideWord (n : Int) : Bool :=
  -0x8000000000000000 < n && n < 0x8000000000000000

def trueWords : List (List Char) :=
  ["1".toList, "true".toList, "t".toList, "yes".toList, "y".toList, "on".toList]

def falseWords : List (List Char) :=
  ["0".toList, "false".toList, "f".toList, "no".toList, "n".toList, "off".toList]

namespace Field

def asText : Field → Except Problem (List Char)
  | text value => .ok value
  | _ => .error .notAText

def booleanOf (n : Int) : Except Problem Bool :=
  if n = 0 then .ok false
  else if n = 1 then .ok true
  else .error .badBoolean

/-- Read a boolean. Words may be written in capital letters. -/
def asBoolean : Field → Except Problem Bool
  | boolean value => .ok value
  | integer value => if fitsWord value then booleanOf value else .error .notABoolean
  | decimal mantissa exponent =>
    match whole? mantissa exponent with
    | some value => if insideWord value then booleanOf value else .error .notABoolean
    | none => .error .notABoolean
  | text value =>
    let word := value.map Char.toLower
    if trueWords.contains word then .ok true
    else if falseWords.contains word then .ok false
    else .error .badBoolean
  | null | compound => .error .notABoolean

def asInteger : Field → Except Problem Int
  | boolean value => .ok (if value then 1 else 0)
  | integer value => .ok value
  | decimal mantissa exponent =>
    match whole? mantissa exponent with
    | some value => if insideWord value then .ok value else .error .tooLarge
    | none => .error .fractional
  | text value =>
    match integerText? value with
    | some n => .ok n
    | none => .error .badInteger
  | null | compound => .error .notAnInteger

def asIntegerFrom (least : Int) (field : Field) : Except Problem Int :=
  match field.asInteger with
  | .ok n => if n < least then .error .tooSmall else .ok n
  | .error problem => .error problem

end Field

end Brainfuck.Framework
