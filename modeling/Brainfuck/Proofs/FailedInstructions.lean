import Brainfuck.Machine.Emulator
import Brainfuck.Proofs.Steps

/-!
# What a failed instruction leaves

Any instruction may fail: it lacks an operand, names one that cannot be read or written, jumps to no
label, or looks outside of the memory. Nothing is assumed of it here, nor of the state it fails in.

* `Machine.State.ReadsOutside` : the bytes that a read would transfer do not all lie in the memory;
* `Machine.State.perform_error` : an instruction that fails keeps the state, but for the input that such
  a read had already taken;
* `Machine.Action.ofInstruction_eq_systemCall_iff` : which instructions are system calls;
* `Machine.State.Aborted` : what a failed instruction leaves of a state (`aborted_perform`);
* `Machine.failed_instruction_atomic` : single instructions, and runs that come to one that fails.
-/

namespace Brainfuck.Machine

/-! ## Operations that fail -/

namespace State

variable {s t : State} {fault : Fault}

theorem move_error {target source : Operand} (h : s.move target source = .error (fault, t)) : t = s := by
  unfold State.move at h
  split at h
  · cases h
    rfl
  · split at h
    · cases h
      rfl
    · contradiction

theorem combine_error {op : Arithmetic} {target : Operand} {source : Option Operand}
    (h : s.combine op target source = .error (fault, t)) : t = s := by
  unfold State.combine at h
  split at h
  · cases h
    rfl
  · split at h
    · cases h
      rfl
    · split at h
      · cases h
        rfl
      · contradiction

theorem compare_error {left : Operand} {right : Option Operand}
    (h : s.compare left right = .error (fault, t)) : t = s := by
  unfold State.compare at h
  split at h
  · cases h
    rfl
  · split at h
    · cases h
      rfl
    · contradiction

def readCount (s : State) : Nat := min (s.registers.get .rdx) s.input.length

/-- A system call reads, and what it reads would not all lie in the memory. -/
def ReadsOutside (s : State) : Prop :=
  s.registers.get .rax = 0 ∧ s.memory.size < s.registers.get .rsi + s.readCount

theorem checkRange_natCast (s : State) (address length : Nat) :
    s.checkRange address length =
      if s.memory.size < address + length then .error (.outOfRange address) else .ok address := by
  unfold checkRange
  by_cases h : s.memory.size < address + length
  · rw [if_pos (by omega), if_pos h]
  · rw [if_neg (by omega), if_neg h, Int.toNat_natCast]

/-- The bytes are taken from the input before the place for them is looked at. -/
theorem readInput_eq_error_iff :
    s.readInput = .error (fault, t) ↔ s.memory.size < s.registers.get .rsi + s.readCount ∧
      fault = .outOfRange (s.registers.get .rsi) ∧ t = { s with input := s.input.drop s.readCount } := by
  have hlength : (s.input.take (s.registers.get .rdx)).length = s.readCount := List.length_take
  have hdrop : s.input.drop (s.registers.get .rdx) = s.input.drop s.readCount := by
    unfold readCount
    rcases Nat.le_total (s.registers.get .rdx) s.input.length with hle | hle
    · rw [Nat.min_eq_left hle]
    · rw [Nat.min_eq_right hle, List.drop_length, List.drop_eq_nil_of_le hle]
  simp only [readInput, hlength, hdrop, checkRange_natCast]
  by_cases h : s.memory.size < s.registers.get .rsi + s.readCount
  · rw [if_pos h]
    constructor
    · intro herror
      cases herror
      exact ⟨h, rfl, rfl⟩
    · rintro ⟨-, rfl, rfl⟩
      rfl
  · rw [if_neg h]
    exact iff_of_false nofun fun hrange => h hrange.1

theorem writeOutput_error (h : s.writeOutput = .error (fault, t)) : t = s := by
  simp only [writeOutput] at h
  split at h
  · cases h
    rfl
  · contradiction

theorem systemCall_error_cases (h : s.systemCall = .error (fault, t)) :
    (s.ReadsOutside ∧ t = { s with input := s.input.drop s.readCount }) ∨ (¬s.ReadsOutside ∧ t = s) := by
  unfold systemCall at h
  split at h
  · rename_i hrax
    obtain ⟨hrange, -, ht⟩ := readInput_eq_error_iff.1 h
    exact .inl ⟨⟨hrax, hrange⟩, ht⟩
  · rename_i hrax
    refine .inr ⟨?_, writeOutput_error h⟩
    rintro ⟨hread, -⟩
    omega
  · contradiction
  · rename_i hrax _ _
    cases h
    exact .inr ⟨fun hread => hrax hread.1, rfl⟩

/-- An instruction that fails keeps the state. The one exception is a read that leaves the memory. -/
theorem perform_error {action : Action} (h : s.perform action = .error (fault, t)) :
    (action = .systemCall ∧ s.ReadsOutside ∧ t = { s with input := s.input.drop s.readCount }) ∨
      (¬(action = .systemCall ∧ s.ReadsOutside) ∧ t = s) := by
  cases action with
  | move target source => exact .inr ⟨nofun, move_error h⟩
  | combine op target source => exact .inr ⟨nofun, combine_error h⟩
  | compare left right => exact .inr ⟨nofun, compare_error h⟩
  | jump condition target =>
    rw [perform] at h
    split at h <;> contradiction
  | systemCall =>
    rcases systemCall_error_cases h with ⟨hread, ht⟩ | ⟨hread, ht⟩
    · exact .inl ⟨rfl, hread, ht⟩
    · exact .inr ⟨fun hcall => hread hcall.2, ht⟩
  | idle => contradiction
  | refuse fault =>
    cases h
    exact .inr ⟨nofun, rfl⟩

theorem systemCall_of_readsOutside (h : s.ReadsOutside) :
    s.systemCall = .error (.outOfRange (s.registers.get .rsi),
      { s with input := s.input.drop s.readCount }) := by
  unfold systemCall
  rw [h.1]
  exact readInput_eq_error_iff.2 ⟨h.2, rfl, rfl⟩

end State

/-! ## Instructions as written -/

/-- System calls are told by their mnemonic alone; their operands are not looked at. -/
theorem Action.ofInstruction_eq_systemCall_iff {furtherName : Option (List Char)}
    {target? : List Char → Option Nat} {instruction : Instruction} :
    Action.ofInstruction furtherName target? instruction = .systemCall ↔
      instruction.mnemonic = "syscall".toList := by
  obtain ⟨line, mnemonic, operands⟩ := instruction
  constructor
  · intro h
    unfold ofInstruction at h
    split at h
    · unfold ofJump at h
      split at h
      · contradiction
      · split at h <;> contradiction
    · unfold ofOperands at h
      split at h
      · split at h <;> contradiction
      · split at h
        · split at h <;> contradiction
        · split at h
          · assumption
          · split at h
            · contradiction
            · split at h <;> contradiction
  · rintro rfl
    rfl

namespace State

/-- What an instruction that failed leaves of a state: all but the input as it was, and of the input what
a read that leaves the memory has not taken. -/
structure Aborted (s : State) (instruction : Instruction) (t : State) : Prop where
  pc : t.pc = s.pc
  registers : t.registers = s.registers
  memory : t.memory = s.memory
  zeroFlag : t.zeroFlag = s.zeroFlag
  output : t.output = s.output
  exitStatus : t.exitStatus = s.exitStatus
  lost : instruction.mnemonic = "syscall".toList → s.ReadsOutside →
    t.input = s.input.drop s.readCount
  kept : ¬(instruction.mnemonic = "syscall".toList ∧ s.ReadsOutside) → t.input = s.input

theorem aborted_perform {s t : State} {fault : Fault} {furtherName : Option (List Char)}
    {target? : List Char → Option Nat} {instruction : Instruction}
    (h : s.perform (.ofInstruction furtherName target? instruction) = .error (fault, t)) :
    s.Aborted instruction t := by
  rcases perform_error h with ⟨hcall, hread, rfl⟩ | ⟨hother, rfl⟩
  · have hmnemonic := Action.ofInstruction_eq_systemCall_iff.1 hcall
    exact ⟨rfl, rfl, rfl, rfl, rfl, rfl, fun _ _ => rfl, fun hkept => absurd ⟨hmnemonic, hread⟩ hkept⟩
  · rw [Action.ofInstruction_eq_systemCall_iff] at hother
    refine ⟨rfl, rfl, rfl, rfl, rfl, rfl, fun hmnemonic hread => ?_, fun _ => rfl⟩
    exact absurd ⟨hmnemonic, hread⟩ hother

end State

theorem aborted_step {listing : Listing} {furtherName : Option (List Char)} {s t : State} {line : Nat}
    {fault : Fault}
    (h : (system (Code.ofListing furtherName listing)).step s = .error ((line, fault), t)) :
    ∃ instruction, listing.instructions[s.pc]? = some instruction ∧ instruction.line = line ∧
      s.Aborted instruction t := by
  simp only [system, State.step, Code.ofListing_eq, List.getElem?_toArray, List.getElem?_map] at h
  cases hinstruction : listing.instructions[s.pc]? with
  | none =>
    rw [hinstruction] at h
    contradiction
  | some instruction =>
    simp only [hinstruction, Option.map_some] at h
    split at h
    · contradiction
    · rename_i hperform
      cases h
      exact ⟨instruction, rfl, rfl, State.aborted_perform hperform⟩

/-! ## Single instructions and runs -/

/-- An instruction that fails, whatever its mnemonic, its operands and the labels are, leaves registers,
memory, zero flag, output and exit status as they were, and the input too, unless it is a read whose bytes
would not all lie in the memory. Such a read always fails, and what it asked for is gone from the input.
So a run that fails leaves the state which its last successful step has led to, but for that input. -/
theorem failed_instruction_atomic :
    (∀ (s t : State) (furtherName : Option (List Char)) (target? : List Char → Option Nat)
        (instruction : Instruction) (fault : Fault),
      s.perform (.ofInstruction furtherName target? instruction) = .error (fault, t) →
        s.Aborted instruction t) ∧
    (∀ (s : State) (furtherName : Option (List Char)) (target? : List Char → Option Nat)
        (instruction : Instruction), instruction.mnemonic = "syscall".toList → s.ReadsOutside →
      ∃ t, s.perform (.ofInstruction furtherName target? instruction) =
        .error (.outOfRange (s.registers.get .rsi), t)) ∧
    ∀ (emulator : Emulator) (s t : State) (listing : Listing) (turns n line : Nat) (fault : Fault),
      emulator.execute s listing turns = ⟨t, n, .failed (line, fault)⟩ →
        ∃ u instruction, (system (Code.ofListing s.registers.furtherName listing)).Steps n s u ∧
          listing.instructions[u.pc]? = some instruction ∧ instruction.line = line ∧
          u.Aborted instruction t := by
  refine ⟨?_, ?_, ?_⟩
  · intro s t furtherName target? instruction fault h
    exact State.aborted_perform h
  · intro s furtherName target? instruction hmnemonic hread
    rw [Action.ofInstruction_eq_systemCall_iff.2 hmnemonic]
    exact ⟨_, State.systemCall_of_readsOutside hread⟩
  · intro emulator s t listing turns n line fault h
    obtain ⟨u, hsteps, -, hfailed, -⟩ := System.drive_failed_iff.1 ⟨turns, h⟩
    obtain ⟨instruction, hinstruction, hline, haborted⟩ := aborted_step hfailed
    exact ⟨u, instruction, hsteps, hinstruction, hline, haborted⟩

/-- A read of two bytes to the last byte of the memory: the third byte of the input is left, and the flag
is still set. -/
theorem failed_instruction_atomic_read :
    ∃ t : State, State.perform
        { registers := (({} : Registers).set .rsi 3).set .rdx 2
          memory := #[1, 2, 3, 4]
          zeroFlag := true
          input := [7, 8, 9] }
        (.ofInstruction none (fun _ => none) ⟨1, "syscall".toList, []⟩) = .error (.outOfRange 3, t) ∧
      t.memory = #[1, 2, 3, 4] ∧ t.zeroFlag = true ∧ t.input = [9] := by
  obtain ⟨hatomic, hfails, -⟩ := failed_instruction_atomic
  have hread : State.ReadsOutside
      { registers := (({} : Registers).set .rsi 3).set .rdx 2
        memory := #[1, 2, 3, 4]
        zeroFlag := true
        input := [7, 8, 9] } := ⟨rfl, by decide⟩
  obtain ⟨t, ht⟩ := hfails _ none (fun _ => none) ⟨1, "syscall".toList, []⟩ rfl hread
  have haborted := hatomic _ _ _ _ _ _ ht
  exact ⟨t, ht, haborted.memory, haborted.zeroFlag, haborted.lost rfl hread⟩

end Brainfuck.Machine
