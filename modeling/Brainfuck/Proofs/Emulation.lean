import Brainfuck.Machine.Emulator
import Brainfuck.Proofs.Assembling
import Brainfuck.Proofs.Generation
import Brainfuck.Proofs.Interpretation
import Brainfuck.Proofs.Simulation

/-!
# Runs of the emulator

* `execute_halted_iff`, `outcome_execute_iff` : the runs that leave a result;
* `resultOf_of_names`, `registers_initial_of_names` : results and first states, for the default
  registers `resultOf_default` and `registers_initial_default`;
* `Emulator.Standard` : the registers are the default ones and the tape has a size;
* `resultOf_matches` : the result read off a state that belongs to a store;
* `matches_initial` : bare lines start in a state that belongs to the interpreter's first store;
* `holds_lines` : the code of a block stands in the code of its written lines, and nothing else does.
-/

namespace Brainfuck

open Machine Codegen
open Interpreter (Session)

/-! ## Results -/

namespace Machine.Emulator

variable {emulator : Emulator}

theorem execute_halted_iff {s t : State} {listing : Listing} {n : Nat} :
    (∃ turns, emulator.execute s listing turns = ⟨t, n, .halted⟩) ↔
      (system (Code.ofListing s.registers.furtherName listing)).Steps n s t ∧
        (system (Code.ofListing s.registers.furtherName listing)).halted t = true ∧
        ∀ limit ∈ stepBudget emulator.limit, n ≤ limit :=
  System.drive_halted_iff

theorem outcome_eq_ok {run : Run State (Nat × Fault)} {result : Result}
    (h : emulator.outcome run = .ok result) :
    ∃ t n, run = ⟨t, n, .halted⟩ ∧ emulator.resultOf t n = .ok result := by
  obtain ⟨t, n, ending⟩ := run
  cases ending with
  | halted => exact ⟨t, n, rfl, h⟩
  | failed e => contradiction
  | exhausted => contradiction
  | paused => contradiction

theorem outcome_execute_iff (emulator : Emulator) (s : State) (listing : Listing) (result : Result) :
    (∃ turns, emulator.outcome (emulator.execute s listing turns) = .ok result) ↔
      ∃ n t, (system (Code.ofListing s.registers.furtherName listing)).Steps n s t ∧
        (system (Code.ofListing s.registers.furtherName listing)).halted t = true ∧
        (∀ limit ∈ stepBudget emulator.limit, n ≤ limit) ∧ emulator.resultOf t n = .ok result := by
  constructor
  · rintro ⟨turns, h⟩
    obtain ⟨t, n, hrun, hresult⟩ := outcome_eq_ok h
    obtain ⟨hsteps, hhalted, hlimit⟩ := execute_halted_iff.1 ⟨turns, hrun⟩
    exact ⟨n, t, hsteps, hhalted, hlimit, hresult⟩
  · rintro ⟨n, t, hsteps, hhalted, hlimit, hresult⟩
    obtain ⟨turns, hrun⟩ := execute_halted_iff.2 ⟨hsteps, hhalted, hlimit⟩
    exact ⟨turns, by rw [hrun]; exact hresult⟩

section

variable {pointer cache : Register} {size : Int} {s : State}

theorem resultOf_of_names (names : emulator.convention.Names pointer cache)
    (hs : s.registers.furtherName = none) (n : Nat) :
    emulator.resultOf s n = .ok
      { output := s.output
        tape := s.memory.extract emulator.tapeBase emulator.memorySize
        pointer := s.registers.get pointer - emulator.tapeBase
        steps := n
        exitStatus := s.exitStatus } := by
  have hname : s.registers.getNamed? emulator.convention.pointerRegister =
      some (s.registers.get pointer) := by
    rw [Registers.getNamed?, hs, RegisterRef.ofName?, if_neg (by simp), names.pointer]
    rfl
  rw [resultOf, hname]

theorem registers_initial_of_names (names : emulator.convention.Names pointer cache)
    (input : List Int) :
    (emulator.initial input).registers =
      ((({} : Registers).set .rsp emulator.memorySize).set .rsp emulator.tapeBase).set pointer
        emulator.tapeBase := by
  simp only [initial, Registers.setNamed, names.pointer]
  rfl

theorem resultOf_default (h : emulator.convention = { stackSize := size })
    (hs : s.registers.furtherName = none) (n : Nat) :
    emulator.resultOf s n = .ok
      { output := s.output
        tape := s.memory.extract emulator.tapeBase emulator.memorySize
        pointer := s.registers.get .rbx - emulator.tapeBase
        steps := n
        exitStatus := s.exitStatus } :=
  resultOf_of_names (by rw [h]; exact Convention.names_default size) hs n

theorem registers_initial_default (h : emulator.convention = { stackSize := size })
    (input : List Int) :
    (emulator.initial input).registers =
      ((({} : Registers).set .rsp emulator.memorySize).set .rsp emulator.tapeBase).set .rbx
        emulator.tapeBase :=
  registers_initial_of_names (by rw [h]; exact Convention.names_default size) input

theorem furtherName_initial_default (h : emulator.convention = { stackSize := size })
    (input : List Int) : (emulator.initial input).registers.furtherName = none := by
  rw [emulator.registers_initial_default h]
  rfl

end

/-- The registers are the default ones, and the tape has a given number of cells, for which the
memory leaves room. -/
structure Standard (emulator : Emulator) (cells : Nat) : Prop where
  convention : emulator.convention = { stackSize := cells }
  positive : 1 ≤ cells
  bound : emulator.memorySize < 2 ^ 64

namespace Standard

variable {cells : Nat}

theorem names (h : emulator.Standard cells) : emulator.convention.Names .rbx .rcx := by
  rw [h.convention]
  exact Convention.names_default cells

theorem memorySize_eq (h : emulator.Standard cells) :
    emulator.memorySize = emulator.tapeBase + cells ∧ 0 < emulator.tapeBase := by
  have hroom := emulator.room
  rw [tapeBase]
  rw [h.convention] at hroom ⊢
  simp only at hroom ⊢
  omega

theorem resultOf_eq (h : emulator.Standard cells) {s : State} (hs : s.registers.furtherName = none)
    (n : Nat) :
    emulator.resultOf s n = .ok
      { output := s.output
        tape := s.memory.extract emulator.tapeBase emulator.memorySize
        pointer := s.registers.get .rbx - emulator.tapeBase
        steps := n
        exitStatus := s.exitStatus } :=
  resultOf_default h.convention hs n

theorem resultOf_matches (h : emulator.Standard cells) {st : Store} {s : State}
    (hs : Matches emulator.tapeBase 0 [] st s) (hsize : st.tape.size = cells) (n : Nat) :
    emulator.resultOf s n = .ok
      { output := st.output
        tape := st.tape
        pointer := st.pointer
        steps := n
        exitStatus := none } := by
  have htape : s.memory.extract emulator.tapeBase emulator.memorySize = st.tape := by
    rw [h.memorySize_eq.1, ← hsize]
    exact hs.extract_tape
  have hpointer : (s.registers.get .rbx : Int) - emulator.tapeBase = st.pointer := by
    rw [hs.pointer]
    omega
  have houtput : s.output = st.output := by simpa using hs.output
  rw [h.resultOf_eq hs.plain, htape, hpointer, houtput, hs.running]

theorem registers_initial (h : emulator.Standard cells) (input : List Int) :
    (emulator.initial input).registers =
      ((({} : Registers).set .rsp emulator.memorySize).set .rsp emulator.tapeBase).set .rbx
        emulator.tapeBase :=
  registers_initial_default h.convention input

/-- Bare lines start in a state that belongs to the interpreter's first store. -/
theorem matches_initial (h : emulator.Standard cells) {session : Session}
    (hsession : session.settings.tapeLength = cells) (input : List Int) :
    Matches emulator.tapeBase 0 [] (session.store input) (emulator.initial input) := by
  obtain ⟨hmemory, -⟩ := h.memorySize_eq
  have hregisters := h.registers_initial input
  have htape : (session.store input).tape = Array.replicate cells 0 := by
    rw [Session.store, Interpreter.Settings.blankTape, hsession, Int.toNat_natCast]
  have hsize : (session.store input).tape.size = cells := by rw [htape, Array.size_replicate]
  refine ⟨?_, ?_, ?_, fun i hi => ?_, ?_, ?_, by simp, by simp, rfl, rfl, rfl, ?_⟩
  · rw [hsize, ← hmemory]
    exact Array.size_replicate
  · rw [hsize, ← hmemory]
    exact h.bound
  · rw [Store.OnTape, hsize]
    exact h.positive
  · rw [hsize] at hi
    rw [htape, State.byte]
    show (Array.replicate emulator.memorySize 0).getD _ 0 = _
    simp only [Array.getD_eq_getD_getElem?, Array.getElem?_replicate]
    rw [if_pos (by omega), if_pos hi]
  · rw [hregisters]
    simp [Session.store]
  · rw [hregisters]
    simp
  · rw [hregisters]
    rfl

end Standard

end Machine.Emulator

/-- The code of a block stands in the code of its written lines, and nothing else does. -/
theorem holds_lines {convention : Convention} {pointer cache : Register}
    (names : convention.Names pointer cache) (b : Block) :
    Holds (Code.ofListing none (Listing.ofLines ((b.lines convention 0).map Line.text))) pointer cache 0
        b.code ∧
      (Code.ofListing none (Listing.ofLines ((b.lines convention 0).map Line.text))).size =
        b.code.length := by
  obtain ⟨inner, full, hlines, hfull, hlength, -, hholds⟩ :=
    holds_block names b (show Listing.ofLines [] = {} from rfl)
      (show Listing.ofLinesFrom _ _ [] = {} from rfl) (by simpa using nodup_labelNames b 0)
  rw [List.nil_append, List.append_nil] at hlines
  rw [hlines]
  refine ⟨hholds, ?_⟩
  rw [Code.size_ofListing, hfull, ← hlength]
  simp [Listing.append]

end Brainfuck
