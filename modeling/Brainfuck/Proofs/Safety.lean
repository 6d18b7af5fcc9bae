import Brainfuck.Proofs.Emulation
import Brainfuck.Proofs.Lockstep

/-!
# Compiled programs fail on memory only

A run of generated code can leave the tape and overwrite the buffers of its own outputs. Still every
line is understood, every jump finds its label, and every system call is a read or a write, so the one
fault that can arise is an access outside of the memory.

* `Opcode.exec_error`, `Instr.exec_error` : the faults of an instruction that is ready;
* `Alike.self`, `ready_of_steps` : every state of a run lies abreast of itself, so that each instruction
  finds what it looks at;
* `fault_of_steps` : the faults of a run;
* `runLines_safe` : what a run of compiled lines can come to.
-/

namespace Brainfuck

open Machine Codegen

variable {s t u : State} {f : Fault}

/-! ## Faults of an instruction -/

theorem Machine.State.checkRange_error {address : Int} {length : Nat}
    (h : s.checkRange address length = .error f) : f = .outOfRange address := by
  unfold State.checkRange at h
  split at h
  · cases h
    rfl
  · contradiction

theorem Machine.State.within_error {address : Nat} {next : State}
    (h : s.within address next = .error (f, t)) : f = .outOfRange address ∧ t = s := by
  unfold State.within at h
  split at h
  · contradiction
  · cases h
    exact ⟨rfl, rfl⟩

theorem Machine.State.systemCall_error (h : s.systemCall = .error (f, t))
    (hrax : s.registers.get .rax ≤ 1) : ∃ address, f = .outOfRange address := by
  unfold State.systemCall at h
  obtain hread | hwrite : s.registers.get .rax = 0 ∨ s.registers.get .rax = 1 := by omega
  · simp only [hread, State.readInput] at h
    split at h
    · rename_i hrange
      cases h
      exact ⟨_, checkRange_error hrange⟩
    · contradiction
  · simp only [hwrite, State.writeOutput] at h
    split at h
    · rename_i hrange
      cases h
      exact ⟨_, checkRange_error hrange⟩
    · contradiction

theorem Opcode.exec_error {o : Opcode} (h : o.exec .rbx .rcx s = .error (f, t))
    (hready : (Instr.op o).Ready s u) : ∃ address, f = .outOfRange address := by
  cases o <;> simp only [exec] at h
  case change | load | save | test => exact ⟨_, (State.within_error h).1⟩
  case call => exact State.systemCall_error h hready
  all_goals contradiction

theorem Instr.exec_error {instr : Instr} (h : instr.exec .rbx .rcx s = .error (f, t))
    (hready : instr.Ready s u) : ∃ address, f = .outOfRange address := by
  cases instr with
  | op o => exact Opcode.exec_error h hready
  | leave distance => contradiction
  | back distance => contradiction

/-! ## Faults of a run -/

theorem Alike.self (hexit : s.exitStatus = none) (hplain : s.registers.furtherName = none) :
    Alike 0 s s :=
  ⟨rfl, fun _ _ _ => rfl, rfl, rfl, rfl, ⟨hexit, hexit⟩, ⟨hplain, hplain⟩⟩

section

variable {instrs : List Instr} {code : Machine.Code} {n : Nat}

/-- A run of linked instructions stays among them or comes to their end, does not exit, and is ready for
the next instruction wherever it comes. -/
theorem ready_of_steps (hcode : Holds code .rbx .rcx 0 instrs) (hsize : code.size = instrs.length)
    (hlinked : Linked instrs) (hs : Alike 0 s s) (hpc : s.pc = 0) (hsteps : (system code).Steps n s t) :
    t.pc ≤ instrs.length ∧ t.exitStatus = none ∧ t.registers.furtherName = none ∧
      ∀ instr, instrs[t.pc]? = some instr → ∃ u, instr.Ready t u := by
  -- the run beside itself: only what one of the two states says is used
  obtain ⟨u, -, habreast⟩ := steps_abreast hcode hsize hcode hlinked (hs.abreast hlinked hpc) hsteps
  exact ⟨habreast.inside, habreast.alike.running.1, habreast.alike.plain.1,
    fun instr hinstr => ⟨u, habreast.ready instr hinstr⟩⟩

theorem fault_of_steps (hcode : Holds code .rbx .rcx 0 instrs) (hsize : code.size = instrs.length)
    (hlinked : Linked instrs) (hs : Alike 0 s s) (hpc : s.pc = 0) (hsteps : (system code).Steps n s t)
    (running : (system code).halted t = false) {line : Nat}
    (failed : (system code).step t = .error ((line, f), u)) : ∃ address, f = .outOfRange address := by
  obtain ⟨-, hexit, -, hready⟩ := ready_of_steps hcode hsize hlinked hs hpc hsteps
  have hlt : t.pc < instrs.length := by
    rw [← hsize]
    simpa [system, hexit] using running
  obtain ⟨instr, hinstr⟩ : ∃ instr, instrs[t.pc]? = some instr := ⟨_, List.getElem?_eq_getElem hlt⟩
  obtain ⟨v, hv⟩ := hready instr hinstr
  have hdoes : Does code .rbx .rcx t.pc instr := by simpa using hcode.get hinstr
  cases hexec : instr.exec .rbx .rcx t with
  | ok w =>
    rw [hdoes.step rfl hexec] at failed
    contradiction
  | error failure =>
    obtain ⟨g, w⟩ := failure
    obtain ⟨line', hstep⟩ := hdoes.fail rfl hexec
    rw [hstep] at failed
    cases failed
    exact Instr.exec_error hexec hv

end

/-! ## Runs of the emulator -/

variable {emulator : Emulator} {size : Int}

/-- With the default registers, whatever the tape's size, the lines of a program leave a result without
an exit status, run out of their budget, or access what is outside of the memory. Otherwise they have
not come to an end after the turns given, which under a budget are no more than it allows. -/
theorem runLines_safe (hemulator : emulator.convention = { stackSize := size }) (declared : Int)
    {text : List Char} (htext : flaw? text = none) (input : List Int) :
    ∃ lines, ({ convention := { stackSize := declared } } : Compiler).lineTexts text = .ok lines ∧
      ∀ turns,
        (∃ result, (emulator.runLines lines input turns).1 = .ok result ∧ result.exitStatus = none) ∨
        (emulator.runLines lines input turns).1 = .error .outOfSteps ∨
        (∃ line address,
          (emulator.runLines lines input turns).1 = .error (.fault line (.outOfRange address))) ∨
        (emulator.runLines lines input turns).1 = .error .interrupted ∧
          ∀ limit ∈ stepBudget emulator.limit, turns ≤ limit := by
  obtain ⟨block, -, -, hlines⟩ := exists_lines { stackSize := declared } htext
  refine ⟨_, hlines, fun turns => ?_⟩
  obtain ⟨hcode, hsize⟩ := holds_lines (Convention.names_default declared) block
  have hplain : (emulator.initial input).registers.furtherName = none := by
    rw [emulator.registers_initial_default hemulator]
    rfl
  have hstart : Alike 0 (emulator.initial input) (emulator.initial input) := .self rfl hplain
  generalize hrun : emulator.execute (emulator.initial input) (Listing.ofLines
    ((block.lines { stackSize := declared } 0).map Line.text)) turns = run
  obtain ⟨t, k, ending⟩ := run
  rw [Emulator.runLines, hrun]
  rw [Emulator.execute, hplain] at hrun
  obtain ⟨n, u, hsteps, hn, hlimit, hend⟩ := System.steps_of_drive hrun
  cases ending with
  | halted =>
    obtain ⟨-, rfl⟩ := hend
    obtain ⟨-, hexit, hname, -⟩ := ready_of_steps hcode hsize (linked_block block) hstart rfl hsteps
    exact .inl ⟨_, emulator.resultOf_default hemulator hname k, hexit⟩
  | failed e =>
    obtain ⟨line, f⟩ := e
    obtain ⟨running, failed, -⟩ := hend
    obtain ⟨address, rfl⟩ :=
      fault_of_steps hcode hsize (linked_block block) hstart rfl hsteps running failed
    exact .inr (.inr (.inl ⟨line, address, rfl⟩))
  | exhausted => exact .inr (.inl rfl)
  | paused =>
    obtain ⟨rfl, -⟩ := hend
    refine .inr (.inr (.inr ⟨rfl, fun limit hl => ?_⟩))
    have hsteps : k = 0 + n := hn
    have hle : n = 0 ∨ k ≤ limit := hlimit limit hl
    omega

/-- A program that leaves the tape and overwrites the buffer of its output returns, and one that moves
further left fails on memory. -/
theorem runLines_safe_beyond :
    (∃ lines result, ({} : Compiler).lineTexts "<+.[<]".toList = .ok lines ∧
      ((Emulator.ofSize 4 { stackSize := 2 } (by decide) none).runLines lines [] 30).1 = .ok result ∧
      result.exitStatus = none) ∧
    ∃ lines line address, ({} : Compiler).lineTexts "<<<.".toList = .ok lines ∧
      ((Emulator.ofSize 4 { stackSize := 2 } (by decide) none).runLines lines [] 30).1 =
        .error (.fault line (.outOfRange address)) := by
  have hemulator : (Emulator.ofSize 4 { stackSize := 2 } (by decide) none).convention =
      { stackSize := 2 } := rfl
  constructor
  · have hreturns : ((Emulator.ofSize 4 { stackSize := 2 } (by decide) none).runLines
        ((({} : Compiler).lineTexts "<+.[<]".toList).toOption.getD []) [] 30).1.toOption.isSome =
          true := by decide +kernel
    obtain ⟨lines, hlines, hsafe⟩ :=
      runLines_safe hemulator 30000 (show flaw? "<+.[<]".toList = none by decide) []
    rw [show ({} : Compiler).lineTexts "<+.[<]".toList = .ok lines from hlines] at hreturns
    rcases hsafe 30 with ⟨result, h, hexit⟩ | h | ⟨_, _, h⟩ | ⟨h, -⟩
    · exact ⟨lines, result, hlines, h, hexit⟩
    all_goals
      rw [show (Except.ok lines : Except Compiler.Failure _).toOption.getD [] = lines from rfl, h]
        at hreturns
      exact absurd hreturns Bool.false_ne_true
  · have hfails : (match ((Emulator.ofSize 4 { stackSize := 2 } (by decide) none).runLines
        ((({} : Compiler).lineTexts "<<<.".toList).toOption.getD []) [] 30).1 with
        | .error (.fault _ _) => true
        | _ => false) = true := by decide +kernel
    obtain ⟨lines, hlines, hsafe⟩ :=
      runLines_safe hemulator 30000 (show flaw? "<<<.".toList = none by decide) []
    rw [show ({} : Compiler).lineTexts "<<<.".toList = .ok lines from hlines] at hfails
    rcases hsafe 30 with ⟨result, h, -⟩ | h | ⟨line, address, h⟩ | ⟨h, -⟩
    case inr.inr.inl => exact ⟨lines, line, address, hlines, h⟩
    all_goals
      rw [show (Except.ok lines : Except Compiler.Failure _).toOption.getD [] = lines from rfl, h]
        at hfails
      exact absurd hfails Bool.false_ne_true

end Brainfuck
