import Brainfuck.Machine.Emulator
import Brainfuck.Proofs.Placement
import Mathlib.Algebra.Ring.Int.Defs

/-!
# What every state of the machine satisfies

Nothing is assumed of the instructions here: they may come from any lines whatever, name any operands,
and fail.

* `Registers.Wide` : all registers hold words of 64 bits, also the further one;
* `Machine.State.Follows` : what a state that comes later keeps of an earlier one: the size of the memory
  and the width of the registers; of the input there is less, of the output more;
* `Machine.State.follows_perform`, `follows_step` : every instruction leads to such a state, also where it
  fails (`left_step_eq`, `left_step`);
* `Emulator.runs_sound` : the runs of the emulator.
-/

namespace Brainfuck

open Machine

/-! ## Registers -/

namespace Machine.Registers

/-- Every register holds a word of 64 bits. -/
def Wide (registers : Registers) : Prop := ∀ ref, registers.getRef ref < 2 ^ 64

variable {registers : Registers} {value : Nat}

theorem Wide.set (h : registers.Wide) (r : Register) (hv : value < 2 ^ 64) :
    (registers.set r value).Wide := by
  intro ref
  cases ref with
  | further => exact h .further
  | general r' =>
    show (registers.set r value).get r' < 2 ^ 64
    rw [get_set]
    split
    · exact hv
    · exact h (.general r')

theorem Wide.setRef (h : registers.Wide) (ref : RegisterRef) (hv : value < 2 ^ 64) :
    (registers.setRef ref value).Wide := by
  cases ref with
  | general r => exact h.set r hv
  | further =>
    intro ref
    cases ref with
    | general r => exact h (.general r)
    | further => exact hv

theorem Wide.setNamed (h : registers.Wide) (name : List Char) (hv : value < 2 ^ 64) :
    (registers.setNamed name value).Wide := by
  unfold Registers.setNamed
  split
  · exact h.set _ hv
  · intro ref
    cases ref with
    | general r => exact h (.general r)
    | further => exact hv

theorem Wide.of_mem_toList (h : registers.Wide) {entry : List Char × Nat}
    (hentry : entry ∈ registers.toList) : entry.2 < 2 ^ 64 := by
  rcases List.mem_append.1 hentry with hentry | hentry
  · obtain ⟨r, -, rfl⟩ := List.mem_map.1 hentry
    exact h (.general r)
  · obtain ⟨name, -, rfl⟩ := Option.map_eq_some_iff.1 (Option.mem_toList.1 hentry)
    exact h .further

theorem wide_blank : ({} : Registers).Wide := by
  intro ref
  cases ref with
  | general r => cases r <;> decide
  | further => decide

end Machine.Registers

/-! ## Instructions -/

namespace Machine.State

/-- What a state that comes later keeps of an earlier one. -/
structure Follows (s t : State) : Prop where
  memory : t.memory.size = s.memory.size
  registers : s.registers.Wide → t.registers.Wide
  input : t.input <:+ s.input
  output : s.output.toList <+: t.output.toList

variable {s t u : State}

theorem Follows.refl (s : State) : s.Follows s := ⟨rfl, id, List.suffix_refl _, List.prefix_refl _⟩

theorem Follows.trans (h : s.Follows t) (h' : t.Follows u) : s.Follows u :=
  ⟨h'.memory.trans h.memory, h'.registers ∘ h.registers, h'.input.trans h.input,
    h.output.trans h'.output⟩

theorem Follows.of_registers (hregisters : s.registers.Wide → t.registers.Wide)
    (hmemory : t.memory = s.memory) (hinput : t.input = s.input) (houtput : t.output = s.output) :
    s.Follows t :=
  ⟨congrArg Array.size hmemory, hregisters, hinput ▸ List.suffix_refl t.input,
    houtput ▸ List.prefix_refl t.output.toList⟩

theorem word_lt (value : Int) : word value < 2 ^ 64 := by
  unfold word
  omega

theorem follows_put (s : State) (place : Place) (value : Int) : s.Follows (s.put place value) := by
  cases place with
  | register ref => exact .of_registers (fun h => h.setRef ref (word_lt value)) rfl rfl rfl
  | lowByte r =>
    refine .of_registers (fun h => h.set r ?_) rfl rfl rfl
    -- the low byte is cut off and put back, so the sum stays below the width
    have := h (.general r)
    simp only [Registers.getRef, Place.kept] at this ⊢
    omega
  | memory address =>
    exact ⟨Array.size_setIfInBounds, id, List.suffix_refl _, List.prefix_refl _⟩

theorem follows_advance (s : State) : s.Follows s.advance := .of_registers id rfl rfl rfl

theorem follows_returning {result : Nat} (hpc : s.pc + 1 < 2 ^ 64)
    (hresult : s.registers.Wide → result < 2 ^ 64) : s.Follows (s.returning result) :=
  .of_registers (fun h => (h.set .rax (hresult h)).set .rcx hpc) rfl rfl rfl

theorem follows_move (s : State) (target source : Operand) :
    s.Follows (System.left (s.move target source)) := by
  unfold State.move
  split
  · exact .refl s
  · split
    · exact .refl s
    · exact (s.follows_put _ _).trans (follows_advance _)

theorem follows_combine (s : State) (op : Arithmetic) (target : Operand) (source : Option Operand) :
    s.Follows (System.left (s.combine op target source)) := by
  unfold State.combine
  split
  · exact .refl s
  · split
    · exact .refl s
    · split
      · exact .refl s
      · have hflag : ∀ flag, s.Follows { s with zeroFlag := flag } := fun flag =>
          .of_registers id rfl rfl rfl
        exact (hflag _).trans ((follows_put _ _ _).trans (follows_advance _))

theorem follows_compare (s : State) (target : Operand) (source : Option Operand) :
    s.Follows (System.left (s.compare target source)) := by
  unfold State.compare
  split
  · exact .refl s
  · split
    · exact .refl s
    · exact .of_registers id rfl rfl rfl

/-- A read takes its bytes from the input also if it fails, and returns no more than it was asked for. -/
theorem follows_readInput (hpc : s.pc + 1 < 2 ^ 64) : s.Follows (System.left s.readInput) := by
  unfold State.readInput
  dsimp only
  split
  · exact ⟨rfl, id, List.drop_suffix _ _, List.prefix_refl _⟩
  · rename_i address _
    have htaken : s.Follows { s with
        memory := writeBytes s.memory address (s.input.take (s.registers.get .rdx))
        input := s.input.drop (s.registers.get .rdx) } :=
      ⟨size_writeBytes _ _ _, id, List.drop_suffix _ _, List.prefix_refl _⟩
    refine htaken.trans (follows_returning hpc fun h => ?_)
    have : s.registers.get .rdx < 2 ^ 64 := h (.general .rdx)
    rw [List.length_take]
    omega

theorem follows_writeOutput (hpc : s.pc + 1 < 2 ^ 64) : s.Follows (System.left s.writeOutput) := by
  unfold State.writeOutput
  dsimp only
  split
  · exact .refl s
  · rename_i address _
    have hwritten : s.Follows { s with
        output := s.output ++ s.memory.extract address (address + s.registers.get .rdx) } :=
      ⟨rfl, id, List.suffix_refl _, by rw [Array.toList_append]; exact List.prefix_append _ _⟩
    exact hwritten.trans (follows_returning hpc fun h => h (.general .rdx))

theorem follows_systemCall (hpc : s.pc + 1 < 2 ^ 64) : s.Follows (System.left s.systemCall) := by
  unfold State.systemCall
  split
  · exact follows_readInput hpc
  · exact follows_writeOutput hpc
  · exact .of_registers (fun h => h.set .rcx hpc) rfl rfl rfl
  · exact .refl s

/-- Every instruction, whatever it is, leaves a state that follows. -/
theorem follows_perform (hpc : s.pc + 1 < 2 ^ 64) (action : Action) :
    s.Follows (System.left (s.perform action)) := by
  cases action with
  | move target source => exact s.follows_move target source
  | combine op target source => exact s.follows_combine op target source
  | compare left right => exact s.follows_compare left right
  | jump condition target =>
    rw [State.perform]
    split <;> exact .of_registers id rfl rfl rfl
  | systemCall => exact follows_systemCall hpc
  | idle => exact follows_advance s
  | refuse fault => exact .refl s

theorem left_step_eq {code : Machine.Code} {line : Nat} {action : Action}
    (h : code[s.pc]? = some (line, action)) :
    System.left ((system code).step s) = System.left (s.perform action) := by
  simp only [system, State.step, h]
  cases s.perform action <;> rfl

/-- What a step leaves is what its instruction leaves, if there is one. -/
theorem left_step {P : State → Prop} (code : Machine.Code) (hself : P s)
    (hperform : ∀ action, P (System.left (s.perform action))) :
    P (System.left ((system code).step s)) := by
  cases haction : code[s.pc]? with
  | none =>
    simp only [system, State.step, haction]
    exact hself
  | some entry =>
    rw [left_step_eq haction]
    exact hperform entry.2

theorem follows_step {code : Machine.Code} (hsize : code.size < 2 ^ 64)
    (running : (system code).halted s = false) : s.Follows (System.left ((system code).step s)) := by
  have hpc : s.pc < code.size := by
    simp only [system, Bool.or_eq_false_iff, decide_eq_false_iff_not] at running
    omega
  exact left_step code (.refl s) fun action => follows_perform (by omega) action

end Machine.State

/-! ## Runs -/

namespace Machine.Emulator

/-- What holds of a state in which a run can leave the emulator, beside what its type says: bytes and
exit statuses are numbers below 256. -/
structure Sound (emulator : Emulator) (input : List Int) (s : State) : Prop where
  memory : s.memory.size = emulator.memorySize
  registers : ∀ entry ∈ s.registers.toList, entry.2 < 2 ^ 64
  input : s.input <:+ input.map UInt8.ofInt

/-- What holds of a run and of its states turn by turn, the last one of a run that fails included. -/
structure SoundRun (emulator : Emulator) (input : List Int)
    (run : (turns : Nat) → Run State (Nat × Fault)) : Prop where
  states : ∀ turns, emulator.Sound input (run turns).state
  /-- A step only adds to the output. -/
  appends : ∀ turns, (run turns).state.output.toList <+: (run (turns + 1)).state.output.toList
  /-- There is no step behind an exit. -/
  ends : ∀ turns, (run turns).state.exitStatus ≠ none → ∀ more,
    (run (turns + more)).state = (run turns).state ∧ (run (turns + more)).steps = (run turns).steps

variable {emulator : Emulator} {input : List Int}

theorem soundRun_of_start {s : State} (hmemory : s.memory.size = emulator.memorySize)
    (hregisters : s.registers.Wide) (hinput : s.input = input.map UInt8.ofInt) {listing : Listing}
    (hsize : listing.instructions.length < 2 ^ 64) :
    emulator.SoundRun input (emulator.execute s listing) := by
  have hcode : (Code.ofListing s.registers.furtherName listing).size < 2 ^ 64 := by
    rwa [Code.size_ofListing]
  have hnext : ∀ turns, (emulator.execute s listing turns).state.Follows
      (emulator.execute s listing (turns + 1)).state := fun turns =>
    System.drive_succ_related State.Follows.refl (fun _ => State.follows_step hcode) _ turns 0 s
  have hall : ∀ turns, s.Follows (emulator.execute s listing turns).state := by
    intro turns
    induction turns with
    | zero => exact .refl s
    | succ turns ih => exact ih.trans (hnext turns)
  refine ⟨fun turns => ?_, fun turns => (hnext turns).output, fun turns hexit more => ?_⟩
  · refine ⟨(hall turns).memory.trans hmemory, fun entry hentry => ?_, ?_⟩
    · exact ((hall turns).registers hregisters).of_mem_toList hentry
    · rw [← hinput]
      exact (hall turns).input
  · refine System.drive_of_halted_state ?_ more
    have : (emulator.execute s listing turns).state.exitStatus.isSome = true :=
      Option.isSome_iff_ne_none.2 hexit
    exact (congrArg (_ || ·) this).trans (Bool.or_true _)

/-- Whatever lines or text the emulator runs, with any names in its convention: the memory keeps its size
and the registers their width, the input left is an end of the input given, a step only adds to the
output, and behind an exit there is no step. -/
theorem runs_sound (hmemory : emulator.memorySize < 2 ^ 64)
    (hbase : emulator.memorySize - emulator.convention.stackSize < 2 ^ 64) (input : List Int) :
    (∀ lines, (Listing.ofLines lines).instructions.length < 2 ^ 64 →
      emulator.SoundRun input (emulator.execute (emulator.initial input) (Listing.ofLines lines)) ∧
      ∀ turns, (emulator.runLines lines input turns).2.state =
        (emulator.execute (emulator.initial input) (Listing.ofLines lines) turns).state) ∧
    (∀ text, (Listing.ofLines (Text.splitLines text)).instructions.length < 2 ^ 64 →
      emulator.SoundRun input (emulator.execute (blank emulator.memorySize input)
        (Listing.ofLines (Text.splitLines text))) ∧
      ∀ turns, (emulator.runText text input turns).2.state =
        (emulator.execute (blank emulator.memorySize input)
          (Listing.ofLines (Text.splitLines text)) turns).state) := by
  have hblank : (blank emulator.memorySize input).registers.Wide :=
    Registers.wide_blank.set .rsp hmemory
  have htape : emulator.tapeBase < 2 ^ 64 := by
    unfold tapeBase
    omega
  refine ⟨fun lines hsize => ⟨?_, fun _ => rfl⟩, fun text hsize => ⟨?_, fun _ => rfl⟩⟩
  · exact soundRun_of_start Array.size_replicate ((hblank.set .rsp htape).setNamed _ htape) rfl hsize
  · exact soundRun_of_start Array.size_replicate hblank rfl hsize

/-- A further register is moved below zero, the program exits, and what stands behind is not executed. -/
theorem runs_sound_exit :
    (ofSize 4 { pointerRegister := "tape".toList, stackSize := 2 } (by decide) none).SoundRun [300]
      ((ofSize 4 { pointerRegister := "tape".toList, stackSize := 2 } (by decide) none).execute
        ((ofSize 4 { pointerRegister := "tape".toList, stackSize := 2 } (by decide) none).initial [300])
        (Listing.ofLines (["sub tape, 0x3", "mov rdi, -1", "mov rax, 60", "syscall",
          "mov rax, [tape]"].map String.toList))) ∧
    ((ofSize 4 { pointerRegister := "tape".toList, stackSize := 2 } (by decide) none).runLines
      (["sub tape, 0x3", "mov rdi, -1", "mov rax, 60", "syscall", "mov rax, [tape]"].map String.toList)
      [300] 9).2.state.exitStatus = some 255 := by
  refine ⟨((runs_sound (by decide) (by decide) [300]).1 _ ?_).1, ?_⟩
  · decide
  · decide +kernel

end Machine.Emulator

end Brainfuck
