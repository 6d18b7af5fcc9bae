/-!
# Rows of cells

A tape or a memory is a row of byte cells. It is set up for a number of cells that may be any integer, of
which a negative one counts as none. Cells are numbered by signed words of 64 bits, so a number outside that
range is refused. So is one for which the host has no storage; how much that is, is a parameter.

The section around a position is what snapshots and reports show of a row.
-/

namespace Brainfuck

/-! ## Storage -/

/-- Whether an integer is a signed word of 64 bits, as positions and counts of cells are. -/
def isIndex (i : Int) : Bool :=
  -0x8000000000000000 ≤ i && i < 0x8000000000000000

inductive StorageFailure where
  | notAnIndex
  | outOfMemory
  deriving DecidableEq

def StorageFailure.message : StorageFailure → String
  | notAnIndex => "cannot fit 'int' into an index-sized integer"
  -- the host reports a lack of memory without a word
  | outOfMemory => ""

/-- The number of cells in a row of a requested length, if there is storage for it: for `available` cells
at most, or without a bound. -/
def cellCount (available : Option Nat) (requested : Int) : Except StorageFailure Nat :=
  if isIndex requested = false then .error .notAnIndex
  else if available.any (· < requested.toNat) then .error .outOfMemory
  else .ok requested.toNat

/-! ## Sections -/

/-- A position in a row of `size` cells, where a negative one counts from the end and every
position is kept inside the row. -/
def position (size : Nat) (i : Int) : Nat :=
  if i < 0 then (size + i).toNat else min i.toNat size

/-- The cells from position `start` up to, and without, position `stop`. -/
def cellsBetween {α : Type} (cells : Array α) (start stop : Int) : Array α :=
  cells.extract (position cells.size start) (position cells.size stop)

/-- A part of a row, with the position of its first cell. -/
structure Window where
  start : Int
  cells : Array UInt8
  deriving DecidableEq

/-- The cells at most `radius` away from `center`. The end is clipped to the row on the right only,
so that an end left of the row counts from the row's end. -/
def windowAround (cells : Array UInt8) (center radius : Int) : Window :=
  let start := max 0 (center - radius)
  ⟨start, cellsBetween cells start (min cells.size (center + radius + 1))⟩

end Brainfuck
