/-!
# Texts

Texts are lists of characters. The notions here are shared by all parts that read or write one.

* Blanks separate words and are trimmed from both ends: the white space of Unicode and the four information
  separators U+001C to U+001F. A zero-width space is no blank.
* A text is cut into lines at every line boundary: line feed, carriage return, both together, the vertical
  tab, the form feed, the separators U+001C to U+001E, next line, and the line and paragraph separators. A
  boundary at the very end opens no further line.
* Substitution replaces every occurrence of a text inside another, from left to right and without overlap.
-/

namespace Brainfuck.Text

def inRanges (ranges : List (Nat × Nat)) (n : Nat) : Bool :=
  ranges.any fun (low, high) => decide (low ≤ n) && decide (n ≤ high)

/-! ## Blanks -/

def isBlank (c : Char) : Bool :=
  let n := c.toNat
  (0x09 ≤ n && n ≤ 0x0d) || (0x1c ≤ n && n ≤ 0x20) || n == 0x85 || n == 0xa0 || n == 0x1680 ||
    (0x2000 ≤ n && n ≤ 0x200a) || n == 0x2028 || n == 0x2029 || n == 0x202f || n == 0x205f ||
    n == 0x3000

def dropEndWhile (p : Char → Bool) (s : List Char) : List Char :=
  (s.reverse.dropWhile p).reverse

def trim (s : List Char) : List Char :=
  dropEndWhile isBlank (s.dropWhile isBlank)

/-- The first word of a text without leading blanks, and what follows the blanks behind it. -/
def splitWord (s : List Char) : List Char × List Char :=
  (s.takeWhile (!isBlank ·), (s.dropWhile (!isBlank ·)).dropWhile isBlank)

/-- Cut at every separator; a text without separators is its own only part. -/
def splitAt (separator : Char) (s : List Char) : List (List Char) :=
  s.foldr
    (fun c parts =>
      if c = separator then [] :: parts
      else match parts with
        | [] => [[c]]
        | part :: others => (c :: part) :: others)
    [[]]

/-! ## Lines -/

def isLineEnd (c : Char) : Bool :=
  let n := c.toNat
  (0x0a ≤ n && n ≤ 0x0d) || (0x1c ≤ n && n ≤ 0x1e) || n == 0x85 || n == 0x2028 || n == 0x2029

/-- Put a character in front of a text whose returns are joined, unless it is a carriage return
before a line feed. The text comes with the character it began with before its returns were
joined. -/
def joinReturnsStep (c : Char) (behind : List Char × Option Char) : List Char × Option Char :=
  (if c = '\r' ∧ behind.2 = some '\n' then behind.1 else c :: behind.1, some c)

/-- Write a carriage return with a line feed behind it as the line feed alone. -/
def joinReturns (s : List Char) : List Char :=
  (s.foldr joinReturnsStep ([], none)).1

def splitLines (s : List Char) : List (List Char) :=
  (joinReturns s).foldr
    (fun c lines =>
      if isLineEnd c then [] :: lines
      else match lines with
        | [] => [[c]]
        | line :: others => (c :: line) :: others)
    []

def joinLines (lines : List (List Char)) : List Char :=
  ['\n'].intercalate lines

/-- Read every line end of the three common kinds as a line feed. -/
def unifyNewlines (s : List Char) : List Char :=
  (joinReturns s).map fun c => if c = '\r' then '\n' else c

/-! ## Substitution -/

def occursIn (part : List Char) : List Char → Bool
  | [] => part.isEmpty
  | c :: rest => part.isPrefixOf (c :: rest) || occursIn part rest

/-- Replace the occurrences of `part` by `value`, after passing over `skip` characters that belong
to an occurrence already replaced. -/
def substituteFrom (part value : List Char) : (skip : Nat) → List Char → List Char
  | _, [] => []
  | skip + 1, _ :: rest => substituteFrom part value skip rest
  | 0, c :: rest =>
    if part.isPrefixOf (c :: rest) then value ++ substituteFrom part value (part.length - 1) rest
    else c :: substituteFrom part value 0 rest

/-- Replace every occurrence of a non-empty `part` by `value`. -/
def substitute (part value s : List Char) : List Char :=
  substituteFrom part value 0 s

/-- Without the first occurrence of a non-empty `part`. -/
def eraseFirst (part : List Char) : List Char → List Char
  | [] => []
  | c :: rest =>
    if part.isPrefixOf (c :: rest) then (c :: rest).drop part.length
    else c :: eraseFirst part rest

end Brainfuck.Text
