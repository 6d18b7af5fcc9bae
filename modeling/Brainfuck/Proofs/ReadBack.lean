import Brainfuck.Proofs.Generation
import Brainfuck.Proofs.WrittenLines

/-!
# Reading back what is written

The numbers, addresses and lines of generated code mean to the machine what they were written for.

* `value_hex`, `value_stackSizeLiteral` : numbers of any size, also negative ones;
* `read_slot_of_lt` : the slots of the output buffer;
* `numbered_block` : the instructions of the listing of a program's lines;
* `written_readBack` : all of this together.
-/

namespace Brainfuck

open Machine Codegen

namespace Machine.State

variable (s : State)

theorem value_hex (n : Nat) : s.value (Operand.read none (Text.hex n)) = .ok (n : Int) := by
  rw [Operand.read_hex]
  rfl

theorem value_stackSizeLiteral (convention : Convention) :
    s.value (Operand.read none convention.stackSizeLiteral) = .ok convention.stackSize := by
  rw [Convention.stackSizeLiteral, Operand.read_signedHex]
  rfl

/-- A slot stands for the cell as far above the stack pointer as its number says, if there is one. -/
theorem read_slot_of_lt {slot : Nat} (h : s.registers.get .rsp + slot < s.memory.size) :
    s.resolve (cell ("rsp+".toList ++ Text.hex slot))
        (Address.read none (cell ("rsp+".toList ++ Text.hex slot))) = .ok (s.registers.get .rsp + slot) ∧
      s.value (Operand.read none (cell ("rsp+".toList ++ Text.hex slot))) =
        .ok ((s.byte (s.registers.get .rsp + slot)).toNat : Int) ∧
      s.place (Operand.read none (cell ("rsp+".toList ++ Text.hex slot))) =
        .ok (.memory (s.registers.get .rsp + slot)) := by
  have hresolve := Opcode.resolve_slot s (cell ("rsp+".toList ++ Text.hex slot)) slot
  rw [if_pos h] at hresolve
  rw [Address.read_slot, Operand.read_slot]
  exact ⟨hresolve, Opcode.value_of_resolve hresolve⟩

end Machine.State

/-- The listing of a block's written lines has the lines that are no labels as its instructions, in order
and each with its number. -/
theorem numbered_block (size : Int) (b : Block) :
    (Listing.ofLines ((b.lines { stackSize := size } 0).map Line.text)).instructions.map
        (fun x => (x.written, x.line)) =
      ((b.lines { stackSize := size } 0).zipIdx 1).filter (·.1.label?.isNone) :=
  numbered_ofLinesFrom (Convention.names_default size) (isGenerated_block b 0) 1 0

/-- A state without further registers reads a written number as that number, also a negative one, and a
slot of the output buffer as the cell as far above the stack pointer as its number says, if there is one.
A program is compiled to lines whose listing has one instruction for each line that is no label, in order,
with the number of the line and the mnemonic and the operands that were written. -/
theorem written_readBack (s : State) (hplain : s.registers.furtherName = none) :
    (∀ n : Nat, s.value (Operand.read s.registers.furtherName (Text.hex n)) = .ok (n : Int)) ∧
    (∀ convention : Convention,
      s.value (Operand.read s.registers.furtherName convention.stackSizeLiteral) =
        .ok convention.stackSize) ∧
    (∀ slot operand, operand = cell ("rsp+".toList ++ Text.hex slot) →
      s.registers.get .rsp + slot < s.memory.size →
        s.resolve operand (Address.read s.registers.furtherName operand) =
          .ok (s.registers.get .rsp + slot) ∧
        s.value (Operand.read s.registers.furtherName operand) =
          .ok ((s.byte (s.registers.get .rsp + slot)).toNat : Int) ∧
        s.place (Operand.read s.registers.furtherName operand) =
          .ok (.memory (s.registers.get .rsp + slot))) ∧
    ∀ (size : Int) (source : List Char), flaw? (joinSource source) = none →
      ∃ lines, ({ convention := { stackSize := size } } : Generator).generate (joinSource source) =
          .ok lines ∧
        ({ convention := { stackSize := size } } : Compiler).lines source = .ok lines ∧
        ({ convention := { stackSize := size } } : Compiler).lineTexts source =
          .ok (lines.map Line.text) ∧
        (Listing.ofLines (lines.map Line.text)).instructions.map (fun x => (x.written, x.line)) =
          (lines.zipIdx 1).filter (·.1.label?.isNone) := by
  rw [hplain]
  refine ⟨s.value_hex, s.value_stackSizeLiteral, ?_, fun size source h => ?_⟩
  · rintro slot operand rfl hlt
    exact s.read_slot_of_lt hlt
  · obtain ⟨p, hp⟩ := flaw?_eq_none_iff.1 h
    obtain ⟨b, rfl, hgen, -⟩ :=
      exists_block (show ({ convention := { stackSize := size } } : Compiler).generator.rules = _ from rfl) p
    have hlines := lines_program hgen
    rw [hp, lines_joinSource] at hlines
    rw [← hp]
    exact ⟨_, hgen.generate, hlines, lineTexts_of_lines hlines, numbered_block size b⟩

/-- Twelve bytes, of which the stack pointer is at the tenth, and a loop with a line break in it. -/
theorem written_readBack_loop :
    (⟨0, ({} : Registers).set .rsp 9, Array.replicate 12 0, false, #[], [], none⟩ : State).value
        (Operand.read none "0xff".toList) = .ok 255 ∧
      (⟨0, ({} : Registers).set .rsp 9, Array.replicate 12 0, false, #[], [], none⟩ : State).value
        (Operand.read none "-0x100".toList) = .ok (-256) ∧
      (⟨0, ({} : Registers).set .rsp 9, Array.replicate 12 0, false, #[], [], none⟩ : State).resolve
        "[rsp+0x2]".toList (Address.read none "[rsp+0x2]".toList) = .ok 11 ∧
      ∃ lines, ({ convention := { stackSize := 2 } } : Compiler).lines "[-\n>]".toList = .ok lines ∧
        (Listing.ofLines (lines.map Line.text)).instructions.map (fun x => (x.written, x.line)) =
          [(op "cmp" ["byte [rbx]".toList, "0x0".toList], 2), (op "je" [".exit_0".toList], 3),
            (op "sub" ["byte [rbx]".toList, "0x1".toList], 4), (op "add" ["rbx".toList, "0x1".toList], 5),
            (op "jmp" [".loop_0".toList], 6)] := by
  obtain ⟨hnumbers, hsizes, hslots, hlistings⟩ := written_readBack
    ⟨0, ({} : Registers).set .rsp 9, Array.replicate 12 0, false, #[], [], none⟩ rfl
  obtain ⟨lines, -, hlines, -, hnumbered⟩ := hlistings 2 "[-\n>]".toList (by decide)
  have hget : (({ convention := { stackSize := 2 } } : Compiler).lines "[-\n>]".toList).toOption.getD [] =
      lines := by
    rw [hlines]
    rfl
  refine ⟨hnumbers 255, hsizes { stackSize := -256 }, (hslots 2 _ rfl (by decide)).1, lines, hlines, ?_⟩
  rw [hnumbered, ← hget]
  decide +kernel

end Brainfuck
