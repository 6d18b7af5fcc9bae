import Brainfuck.Text.Casing
import Brainfuck.Text.Numeral
import Std.Data.TreeMap.Lemmas

/-!
# Assembly

What generated code, program template and machine have in common: the names and sizes of the target convention, the
shape of a line, and how lines are read.

The tape lies on the machine's stack. The pointer register holds the address of the current cell, and the cache
register is the byte register through which cells are moved into the output buffer.

A listing has the instructions and labels of a list of assembly lines. A comment runs from a semicolon to the end
of its line, a line that ends in a colon defines a label, and directives for the assembler are passed over. A label
stands for the position of the next instruction; of several definitions of one label the last counts. The labels of
a listing are gathered in an index, which agrees with the list of their definitions (`getElem?_index`).
-/

namespace Brainfuck

/-! ## Writing -/

/-- Register names and the tape size of the generated code. -/
structure Convention where
  pointerRegister : List Char := "rbx".toList
  cacheRegister : List Char := "cl".toList
  stackSizeRegister : List Char := "rcx".toList
  stackSize : Int := 30000
  deriving DecidableEq

def Convention.stackSizeLiteral (convention : Convention) : List Char :=
  Text.signedHex convention.stackSize

inductive Line where
  | label (name : List Char)
  | instruction (mnemonic : List Char) (operands : List (List Char))
  | verbatim (text : List Char)
  deriving DecidableEq

/-- The written form. A label ends in a colon. An instruction is indented by a tab, and another tab
stands before its operands, which commas separate. -/
def Line.text : Line → List Char
  | label name => name ++ [':']
  | instruction mnemonic [] => '\t' :: mnemonic
  | instruction mnemonic operands =>
    '\t' :: mnemonic ++ '\t' :: [',', ' '].intercalate operands
  | verbatim text => text

/-! ## Reading -/

/-- An instruction as written: its line number from one on, its mnemonic in lower case, and its
operands. -/
structure Instruction where
  line : Nat
  mnemonic : List Char
  operands : List (List Char)
  deriving DecidableEq

inductive Statement where
  | nothing
  | label (name : List Char)
  | instruction (mnemonic : List Char) (operands : List (List Char))
  deriving DecidableEq

/-- The words that speak to the assembler and not to the machine. -/
def directives : List (List Char) :=
  ["global".toList, "section".toList, "bits".toList, "default".toList, "extern".toList]

def operandsOf (s : List Char) : List (List Char) :=
  if s.isEmpty then [] else (Text.splitAt ',' s).map Text.trim

def Statement.ofLine (line : List Char) : Statement :=
  let text := Text.trim (line.takeWhile (· ≠ ';'))
  if text.isEmpty then .nothing
  else if text.getLast? = some ':' then .label text.dropLast
  else
    let (word, rest) := Text.splitWord text
    let mnemonic := Text.lower word
    if directives.contains mnemonic then .nothing
    else .instruction mnemonic (operandsOf rest)

/-- Instructions in order, and labels in the order of their definitions. -/
structure Listing where
  instructions : List Instruction := []
  labels : List (List Char × Nat) := []
  deriving DecidableEq

namespace Listing

/-- The listing of lines of which the first has number `line` and stands behind `count`
instructions. -/
def ofLinesFrom (line count : Nat) : List (List Char) → Listing
  | [] => {}
  | text :: rest =>
    match Statement.ofLine text with
    | .nothing => ofLinesFrom (line + 1) count rest
    | .label name =>
      let later := ofLinesFrom (line + 1) count rest
      { later with labels := (name, count) :: later.labels }
    | .instruction mnemonic operands =>
      let later := ofLinesFrom (line + 1) (count + 1) rest
      { later with instructions := ⟨line, mnemonic, operands⟩ :: later.instructions }

def ofLines (lines : List (List Char)) : Listing :=
  ofLinesFrom 1 0 lines

/-- The position a label stands for. -/
def target? (listing : Listing) (name : List Char) : Option Nat :=
  listing.labels.reverse.lookup name

/-- The labels with their positions, for finding them by their names. -/
def index (listing : Listing) : Std.TreeMap (List Char) Nat :=
  listing.labels.foldl (fun found entry => found.insert entry.1 entry.2) {}

theorem getElem?_foldl_insert (entries : List (List Char × Nat))
    (found : Std.TreeMap (List Char) Nat) (name : List Char) :
    (entries.foldl (fun found entry => found.insert entry.1 entry.2) found)[name]? =
      (entries.reverse.lookup name).or found[name]? := by
  induction entries generalizing found with
  | nil => simp
  | cons entry rest ih =>
    obtain ⟨key, position⟩ := entry
    rw [List.foldl_cons, ih, List.reverse_cons, List.lookup_append, Std.TreeMap.getElem?_insert]
    by_cases h : name = key
    · subst h
      simp
    · have hne : (name == key) = false := by simp [h]
      simp [List.lookup_cons, hne, Ne.symm h]

theorem getElem?_index (listing : Listing) (name : List Char) :
    listing.index[name]? = listing.target? name := by
  rw [index, getElem?_foldl_insert]
  simp [target?]

end Listing

end Brainfuck
