import Brainfuck.Text.Basic

/-!
# Fragments and recognisers

The small computations on runs of operators that the rules share: cutting a run around an operator,
the net effect of two opposite operators, and the gaps that may stand between two reads.

Each recogniser gives the longest beginning of a text that belongs to its language, or nothing if
no beginning does:

* `printRun?`: outputs, moves and changes, from an output to an output;
* `readRun?`: reads with a read gap between neighbours;
* `arithmeticRun?` and `shiftRun?`: rows of changes, rows of moves;
* `loop?`: from an opening bracket to the bracket that closes it.
-/

namespace Brainfuck.Codegen

/-! ## Fragments -/

def isAlone (operator : List Char) (c : Char) : Bool :=
  [c] == operator

/-- Cut a text so that every occurrence of `operator` stands alone between the other fragments. -/
def isolate (operator : List Char) : List Char → List (List Char)
  | [] => []
  | c :: rest =>
    match isolate operator rest with
    | [] => [[c]]
    | fragment :: others =>
      if isAlone operator c || fragment.head?.any (isAlone operator) then
        [c] :: fragment :: others
      else (c :: fragment) :: others

def unitCount (up down : List Char) (c : Char) : Int :=
  if isAlone up c then 1 else if isAlone down c then -1 else 0

/-- The number of `up` characters minus the number of `down` characters. A character that is both
counts as `up`. -/
def netCount (up down fragment : List Char) : Int :=
  fragment.foldr (fun c total => unitCount up down c + total) 0

/-- Whether a text moves the pointer, already displaced by `offset`, to the next cell and changes
no other cell than that one. -/
def isGapFrom : (offset : Int) → List Char → Bool
  | offset, [] => offset == 1
  | offset, '>' :: rest => isGapFrom (offset + 1) rest
  | offset, '<' :: rest => isGapFrom (offset - 1) rest
  | offset, _ :: rest => offset == 1 && isGapFrom offset rest

/-- Whether a text only moves the pointer one cell to the right. Arithmetic is tolerated on the
target cell, which the following read overwrites as long as there is input. -/
def isGap (fragment : List Char) : Bool :=
  isGapFrom 0 fragment

/-! ## Recognisers -/

def isChange (c : Char) : Bool :=
  c == '+' || c == '-'

def isShift (c : Char) : Bool :=
  c == '>' || c == '<'

def isSilent (c : Char) : Bool :=
  isShift c || isChange c

/-- The longest non-empty beginning of characters that satisfy `p`. -/
def classRun? (p : Char → Bool) (s : List Char) : Option (List Char) :=
  match s.takeWhile p with
  | [] => none
  | run => some run

def arithmeticRun? (s : List Char) : Option (List Char) :=
  classRun? isChange s

def shiftRun? (s : List Char) : Option (List Char) :=
  classRun? isShift s

def printRun? (s : List Char) : Option (List Char) :=
  match s with
  | '.' :: _ => some (Text.dropEndWhile (· != '.') (s.takeWhile fun c => c == '.' || isSilent c))
  | _ => none

/-- The further reads behind a read, each with the gap before it. Their number is bounded by the
length of a list that serves as fuel. -/
def furtherReads : (fuel : List Char) → List Char → List Char
  | [], _ => []
  | _ :: fuel, s =>
    let gap := s.takeWhile isSilent
    match s.dropWhile isSilent with
    | ',' :: rest => if isGap gap then gap ++ ',' :: furtherReads fuel rest else []
    | _ => []

def readRun? : List Char → Option (List Char)
  | ',' :: rest => some (',' :: furtherReads rest rest)
  | _ => none

/-- The text up to the bracket that closes `depth + 1` open ones. -/
def throughClosing? : (depth : Nat) → List Char → Option (List Char)
  | _, [] => none
  | depth, '[' :: rest => (throughClosing? (depth + 1) rest).map ('[' :: ·)
  | 0, ']' :: _ => some [']']
  | depth + 1, ']' :: rest => (throughClosing? depth rest).map (']' :: ·)
  | depth, c :: rest => (throughClosing? depth rest).map (c :: ·)

/-- A loop with its brackets. What stands inside is not looked at. -/
def loop? : List Char → Option (List Char)
  | '[' :: rest => (throughClosing? 0 rest).map ('[' :: ·)
  | _ => none

end Brainfuck.Codegen
