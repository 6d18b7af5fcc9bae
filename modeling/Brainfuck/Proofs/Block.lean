import Brainfuck.Codegen.StandardRules
import Brainfuck.Proofs.Placement
import Brainfuck.Proofs.Program
import Mathlib.Algebra.Ring.Int.Defs

/-!
# Blocks

A program cut into the batches that the rules translate together, with its loops:

* `Row`, `Gap`, `Batch` : rows of changes or moves, the gaps between reads, and what the rules without
  jumps translate; their commands and their instructions;
* `Block` : batches and loops, with the program they make up (`Block.program`), the instructions
  (`Block.code`) and the written lines (`Block.lines`);
* `Block.all_of_infix` : what holds of all batches that stand in a text holds of those of a block.
-/

namespace Brainfuck

open Codegen

/-! ## Batches -/

def net (ups : List Bool) : Int := (ups.map fun up => if up then 1 else -1).sum

/-- Add a signed number, given with its amount, or nothing if the amount is zero. -/
def adjustment (make : Bool → Nat → Opcode) (delta : Int) (amount : Nat) : List Opcode :=
  if amount = 0 then [] else [make (decide (0 < delta)) amount]

theorem length_adjustment (make : Bool → Nat → Opcode) (delta : Int) (amount : Nat) :
    (adjustment make delta amount).length ≤ 1 := by
  unfold adjustment
  split <;> simp

/-- A row of changes of the current cell, or of moves. Up is an increment or a move to the right. -/
inductive Row where
  | change (ups : List Bool)
  | shift (ups : List Bool)

namespace Row

def commands : Row → List Command
  | change ups => ups.map fun up => if up then .increment else .decrement
  | shift ups => ups.map fun up => if up then .right else .left

def code : Row → List Opcode
  | change ups => adjustment .change (net ups) ((net ups).natAbs % 256)
  | shift ups => adjustment .shift (net ups) (net ups).natAbs

theorem length_code_le (r : Row) : r.code.length ≤ r.commands.length := by
  have hbound : ∀ (make : Bool → Nat → Opcode) (ups : List Bool) (amount : Nat → Nat),
      amount 0 = 0 → (adjustment make (net ups) (amount (net ups).natAbs)).length ≤ ups.length := by
    intro make ups amount hzero
    cases ups with
    | nil => simp [adjustment, net, hzero]
    | cons up ups =>
      have := length_adjustment make (net (up :: ups)) (amount (net (up :: ups)).natAbs)
      rw [List.length_cons]
      omega
  cases r with
  | change ups => simpa [code, commands] using hbound .change ups (· % 256) rfl
  | shift ups => simpa [code, commands] using hbound .shift ups id rfl

end Row

/-- The commands between two reads that are translated together. -/
structure Gap where
  commands : List Command
  silent : ∀ c ∈ commands, isSilent c.char = true
  fits : isGap (commands.map Command.char) = true

/-- Outputs, each behind a gap. -/
def printed (gaps : List (List Row)) : List Command :=
  gaps.flatMap fun rows => rows.flatMap Row.commands ++ [.output]

/-- Copy the current cell into one slot of the output buffer after the other, each time behind a
gap. -/
def fill : (slot : Nat) → List (List Row) → List Opcode
  | _, [] => []
  | slot, rows :: gaps => rows.flatMap Row.code ++ .load :: .save slot :: fill (slot + 1) gaps

/-- What the rules without jumps translate. -/
inductive Batch where
  | row (r : Row)
  /-- Outputs with gaps between them. -/
  | print (gaps : List (List Row))
  /-- Reads with gaps between them. -/
  | read (gaps : List Gap)

namespace Batch

def commands : Batch → List Command
  | row r => r.commands
  | print gaps => printed ([] :: gaps)
  | read gaps => .input :: gaps.flatMap fun gap => gap.commands ++ [.input]

def text (b : Batch) : List Char := b.commands.map Command.char

def code : Batch → List Opcode
  | row r => r.code
  | print gaps =>
    .stack false (gaps.length + 1) :: fill 0 ([] :: gaps) ++
      [.aimStack, .set .rdx (gaps.length + 1), .set .rdi 1, .set .rax 1, .call,
        .stack true (gaps.length + 1)]
  | read gaps =>
    [.aimTape, .set .rdx (gaps.length + 1), .set .rdi 0, .set .rax 0, .call] ++
      if gaps.length = 0 then [] else [.shift true gaps.length]

theorem commands_read_cons (gap : Gap) (gaps : List Gap) :
    (read (gap :: gaps)).commands = .input :: (gap.commands ++ (read gaps).commands) := by
  simp [commands]

end Batch

theorem length_rowsCode_le (rows : List Row) :
    (rows.flatMap Row.code).length ≤ (rows.flatMap Row.commands).length := by
  induction rows with
  | nil => simp
  | cons r rows ih =>
    have := r.length_code_le
    simp only [List.flatMap_cons, List.length_append]
    omega

theorem length_fill_le (slot : Nat) (gaps : List (List Row)) :
    (fill slot gaps).length ≤ 2 * (printed gaps).length ∧ gaps.length ≤ (printed gaps).length := by
  induction gaps generalizing slot with
  | nil => simp [fill, printed]
  | cons rows gaps ih =>
    have hrows := length_rowsCode_le rows
    have := ih (slot + 1)
    simp only [fill, printed, List.flatMap_cons, List.length_append, List.length_cons,
      List.length_nil] at this ⊢
    omega

/-- A batch has at most nine instructions for a command. -/
theorem Batch.length_code_le (b : Batch) : b.code.length ≤ 9 * b.commands.length := by
  cases b with
  | row r =>
    have := r.length_code_le
    simp only [code, commands]
    omega
  | print gaps =>
    have := length_fill_le 0 ([] :: gaps)
    simp only [code, commands, List.length_cons, List.length_append, List.length_nil] at this ⊢
    omega
  | read gaps =>
    simp only [code, commands, List.length_append, List.length_cons, List.length_nil]
    split <;> simp <;> omega

/-! ## Blocks -/

/-- A program cut into batches and loops. -/
inductive Block where
  | done
  | batch (first : Batch) (rest : Block)
  | loop (body rest : Block)

/-- The instructions of a loop around those of its body. Without a body, there are none. -/
def loopCode (body : List Instr) : List Instr :=
  if body = [] then []
  else .op .test :: .leave (body.length + 2) :: body ++ [.back (body.length + 2)]

theorem loopCode_append {body : List Instr} (h : body ≠ []) (rest : List Instr) :
    loopCode body ++ rest = .op .test :: .leave (body.length + 2) ::
      (body ++ .back (body.length + 2) :: rest) := by
  rw [loopCode, if_neg h]
  simp

namespace Block

def program : Block → Program
  | done => .done
  | batch b rest => .after b.commands rest.program
  | loop body rest => .loop body.program rest.program

def code : Block → List Instr
  | done => []
  | batch b rest => b.code.map .op ++ rest.code
  | loop body rest => loopCode body.code ++ rest.code

def labels : Block → Nat
  | done => 0
  | batch _ rest => rest.labels
  | loop body rest => if body.code = [] then rest.labels else body.labels + 1 + rest.labels

/-- The written form, with label numbers from `n` on. -/
def lines (convention : Convention) : (n : Nat) → Block → List Line
  | _, done => []
  | n, batch b rest => b.code.map (Opcode.line convention) ++ rest.lines convention n
  | n, loop body rest =>
    if body.code = [] then rest.lines convention n
    else Rule.loopLines convention (n + body.labels) (body.lines convention n) ++
      rest.lines convention (n + body.labels + 1)

theorem loopCode_eq_nil {body : List Instr} (h : loopCode body = []) : body = [] := by
  unfold loopCode at h
  split at h
  · assumption
  · contradiction

theorem lines_eq_nil_iff (convention : Convention) (n : Nat) (b : Block) :
    b.lines convention n = [] ↔ b.code = [] := by
  induction b generalizing n with
  | done => simp [lines, code]
  | batch b rest ih => simp [lines, code, ih]
  | loop body rest _ ih =>
    by_cases h : body.code = []
    · simp [lines, code, loopCode, h, ih]
    · simp [lines, code, loopCode, h, Rule.loopLines]

theorem labels_of_code_eq_nil {b : Block} (h : b.code = []) : b.labels = 0 := by
  induction b with
  | done => rfl
  | batch b rest ih => exact ih (List.append_eq_nil_iff.1 h).2
  | loop body rest _ ih =>
    obtain ⟨hloop, hrest⟩ := List.append_eq_nil_iff.1 h
    rw [labels, if_pos (loopCode_eq_nil hloop), ih hrest]

def All (P : Batch → Prop) : Block → Prop
  | done => True
  | batch b rest => P b ∧ rest.All P
  | loop body rest => body.All P ∧ rest.All P

theorem all_of_infix {P : Batch → Prop} {block : Block}
    (h : ∀ b : Batch, b.text <:+: block.program.text → P b) : block.All P := by
  induction block with
  | done => trivial
  | batch b rest ih =>
    have htext : (Block.batch b rest).program.text = b.text ++ rest.program.text :=
      Program.text_after _ _
    rw [htext] at h
    refine ⟨h b (List.prefix_append _ _).isInfix, ih fun c hc => h c ?_⟩
    exact hc.trans (List.suffix_append _ _).isInfix
  | loop body rest ihb ih =>
    have htext : (Block.loop body rest).program.text =
        ('[' :: body.program.text) ++ (']' :: rest.program.text) := rfl
    rw [htext] at h
    refine ⟨ihb fun c hc => h c ?_, ih fun c hc => h c ?_⟩
    · exact hc.trans ((List.suffix_cons _ _).isInfix.trans (List.prefix_append _ _).isInfix)
    · exact hc.trans ((List.suffix_cons _ _).isInfix.trans (List.suffix_append _ _).isInfix)

/-- The body of every loop needs instructions. -/
def Full : Block → Prop
  | done => True
  | batch _ rest => rest.Full
  | loop body rest => body.code ≠ [] ∧ body.Full ∧ rest.Full

end Block

end Brainfuck
