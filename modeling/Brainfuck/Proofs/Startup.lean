import Brainfuck.Proofs.Emulation
import Brainfuck.Proofs.Lockstep

/-!
# The code around a program

What a whole program executes before and behind the instructions of its block.

* `Stands` : given actions stand in the code;
* `Executes` : a system executes the code up to a place;
* `openingActions` : reserve the tape below the end of the memory (`steps_reserve`) and clear it cell by
  cell (`steps_round`, `steps_clearing`), whatever stands in the memory (`steps_prologue`);
* `Clearing` : what holds each time a cell is about to be cleared;
* `steps_opening` : with a blank memory, the machine is then in a state like the one in which bare
  lines start;
* `closingActions` : exit with status zero (`steps_closing`).
-/

namespace Brainfuck

open Machine Text

/-- Given actions stand in the code from `a` on. -/
def Stands (code : Machine.Code) (a : Nat) (actions : List Action) : Prop :=
  ∀ (i : Nat) (action : Action), actions[i]? = some action →
    ∃ line, code[a + i]? = some (line, action)

def Machine.Register.operand (r : Register) : Operand := ⟨r.name, .register (.general r)⟩

def numberOperand (n : Nat) : Operand := ⟨hex n, .number n⟩

def openingActions (cells : Nat) : List Action :=
  [.move Register.rcx.operand (numberOperand cells),
    .combine .sub Register.rsp.operand (some Register.rcx.operand),
    .move Register.rbx.operand Register.rsp.operand,
    .move Register.rdi.operand Register.rsp.operand,
    .move ⟨"byte [rdi]".toList, .memory (.sum [(1, .register (.general .rdi))])⟩ (numberOperand 0),
    .combine .add Register.rdi.operand (some (numberOperand 1)),
    .combine .sub Register.rcx.operand (some (numberOperand 1)),
    .jump .ifNotZero 4]

def closingActions : List Action :=
  [.move Register.rax.operand (numberOperand 60),
    .combine .xor Register.rdi.operand (some Register.rdi.operand),
    .systemCall]

variable {code : Machine.Code} {a : Nat} {actions : List Action} {s t : State}

theorem Stands.step (h : Stands code a actions) {i : Nat} {action : Action}
    (hi : actions[i]? = some action) (hpc : s.pc = a + i) (ok : s.perform action = .ok t) :
    State.step code s = .ok t := by
  obtain ⟨line, hcode⟩ := h i action hi
  simp only [State.step, hpc, hcode, ok]

theorem Stands.steps (h : Stands code a actions) {i : Nat} {action : Action}
    (hi : actions[i]? = some action) (hpc : s.pc = a + i) (hexit : s.exitStatus = none)
    (ok : s.perform action = .ok t) : (system code).Steps 1 s t := by
  obtain ⟨line, hcode⟩ := h i action hi
  obtain ⟨hlt, -⟩ := Array.getElem?_eq_some_iff.1 hcode
  refine .single ?_ (h.step hi hpc ok)
  simp only [system, hexit, Option.isSome_none, Bool.or_false, decide_eq_false_iff_not]
  omega

/-- A system executes the code one instruction after the other, and is running wherever the program
counter has not come to `place` and the exit status is the given one. -/
structure Executes (machine : System State (Nat × Fault)) (code : Machine.Code) (place : Nat)
    (exitStatus : Option UInt8) : Prop where
  step : machine.step = State.step code
  running : ∀ s, s.pc < place → s.exitStatus = exitStatus → machine.halted s = false

theorem executes_system {place : Nat} (h : place ≤ code.size) :
    Executes (system code) code place none := by
  refine ⟨rfl, fun s hpc hexit => ?_⟩
  simp only [system, hexit, Option.isSome_none, Bool.or_false, decide_eq_false_iff_not]
  omega

theorem Executes.steps {machine : System State (Nat × Fault)} {place : Nat}
    {exitStatus : Option UInt8} (h : Executes machine code place exitStatus)
    (hcode : Stands code a actions) {i : Nat} {action : Action} (hi : actions[i]? = some action)
    (hpc : s.pc = a + i) (hplace : a + i < place) (hexit : s.exitStatus = exitStatus)
    (ok : s.perform action = .ok t) : machine.Steps 1 s t := by
  refine .single (h.running s (by omega) hexit) ?_
  rw [h.step]
  exact hcode.step hi hpc ok

/-! ## Clearing the tape -/

theorem perform_clear {r : Register} (text : List Char) (hlt : s.registers.get r < s.memory.size) :
    s.perform (.move ⟨text, .memory (.sum [(1, .register (.general r))])⟩ (numberOperand 0)) =
      .ok { s with memory := s.memory.setIfInBounds (s.registers.get r) 0, pc := s.pc + 1 } := by
  have hresolve := Opcode.resolve_pointer s text r
  rw [if_pos hlt] at hresolve
  obtain ⟨-, hplace⟩ := Opcode.value_of_resolve hresolve
  rw [State.perform, State.move, hplace]
  rfl

theorem perform_move_number (r : Register) {n : Nat} (hn : n < 2 ^ 64) (s : State) :
    s.perform (.move r.operand (numberOperand n)) = .ok
      { s with registers := s.registers.set r n, pc := s.pc + 1 } := by
  have h := Opcode.perform_move s r.name r (show s.value (numberOperand n) = .ok (n : Int) from rfl)
  rwa [Nat.mod_eq_of_lt hn] at h

theorem perform_move_register (r r' : Register) {n : Nat} (hr : s.registers.get r' = n)
    (hn : n < 2 ^ 64) :
    s.perform (.move r.operand r'.operand) = .ok
      { s with registers := s.registers.set r n, pc := s.pc + 1 } := by
  subst hr
  have h := Opcode.perform_move s r.name r (show s.value r'.operand = .ok (s.registers.get r' : Int) from rfl)
  rwa [Nat.mod_eq_of_lt hn] at h

theorem perform_combine_registers (op : Arithmetic) (r r' : Register) (s : State) :
    s.perform (.combine op r.operand (some r'.operand)) = .ok
      { s with
        registers := s.registers.set r (word (op.apply (s.registers.get r) (s.registers.get r')))
        zeroFlag := word (op.apply (s.registers.get r) (s.registers.get r')) == 0
        pc := s.pc + 1 } := rfl

/-- The memory with a row of cells cleared, and one more. -/
theorem writeBytes_zeros_succ (memory : Array UInt8) (base done : Nat) :
    writeBytes memory base (List.replicate (done + 1) 0) =
      (writeBytes memory base (List.replicate done 0)).setIfInBounds (base + done) 0 := by
  rw [List.replicate_succ', writeBytes_append, List.length_replicate]
  rfl

/-- From the state `start`, a tape has been reserved at `base`, `done` of its cells have been cleared,
and `left` are left. -/
structure Clearing (start : State) (base done left : Nat) (s : State) : Prop where
  memory : s.memory = writeBytes start.memory base (List.replicate done 0)
  counter : s.registers.get .rcx = left
  cursor : s.registers.get .rdi = base + done
  registers : ∀ r, r ≠ .rcx → r ≠ .rdi →
    s.registers.get r = ((start.registers.set .rsp base).set .rbx base).get r
  furtherName : s.registers.furtherName = start.registers.furtherName
  output : s.output = start.output
  input : s.input = start.input
  exitStatus : s.exitStatus = start.exitStatus

section

variable {machine : System State (Nat × Fault)} {start : State} {cells base done left : Nat}

/-- A cell is cleared in four steps. -/
theorem steps_round (hmachine : Executes machine code 8 start.exitStatus)
    (hcode : Stands code 0 (openingActions cells)) (hroom : base + done < start.memory.size)
    (hsize : start.memory.size < 2 ^ 64) (hcells : left < 2 ^ 64)
    (h : Clearing start base done (left + 1) s) (hpc : s.pc = 4) :
    ∃ t, machine.Steps 4 s t ∧ Clearing start base (done + 1) left t ∧
      t.pc = if left = 0 then 8 else 4 := by
  have hcounter := h.counter
  have hcursor := h.cursor
  have hmemory : s.memory.size = start.memory.size := by rw [h.memory, size_writeBytes]
  have hclear := perform_clear (s := s) (r := .rdi) "byte [rdi]".toList (by omega)
  rw [hcursor] at hclear
  have hforward : State.perform
      { s with memory := s.memory.setIfInBounds (base + done) 0, pc := s.pc + 1 }
      (.combine .add Register.rdi.operand (some (numberOperand 1))) = .ok { s with
        memory := s.memory.setIfInBounds (base + done) 0
        registers := s.registers.set .rdi (base + done + 1), zeroFlag := base + done + 1 == 0
        pc := s.pc + 2 } :=
    (Opcode.perform_adjust _ _ _ .rdi true 1).trans
      (congrArg _ (adjust_eq (by simp [hcursor]) (by omega)))
  have hback : State.perform { s with
        memory := s.memory.setIfInBounds (base + done) 0
        registers := s.registers.set .rdi (base + done + 1), zeroFlag := base + done + 1 == 0
        pc := s.pc + 2 }
      (.combine .sub Register.rcx.operand (some (numberOperand 1))) = .ok { s with
        memory := s.memory.setIfInBounds (base + done) 0
        registers := (s.registers.set .rdi (base + done + 1)).set .rcx left, zeroFlag := left == 0
        pc := s.pc + 3 } :=
    (Opcode.perform_adjust _ _ _ .rcx false 1).trans
      (congrArg _ (adjust_eq (by simp [hcounter]) hcells))
  have hjump : State.perform { s with
        memory := s.memory.setIfInBounds (base + done) 0
        registers := (s.registers.set .rdi (base + done + 1)).set .rcx left, zeroFlag := left == 0
        pc := s.pc + 3 } (.jump .ifNotZero 4) = .ok { s with
        memory := s.memory.setIfInBounds (base + done) 0
        registers := (s.registers.set .rdi (base + done + 1)).set .rcx left, zeroFlag := left == 0
        pc := if left = 0 then 8 else 4 } := by
    by_cases hleft : left = 0 <;> simp [State.perform, Condition.holds, State.advance, hleft, hpc]
  have hfirst := hmachine.steps hcode (i := 4) rfl hpc (by decide) h.exitStatus hclear
  have hsecond := hmachine.steps hcode (i := 5) rfl (by simp [hpc]) (by decide) (by exact h.exitStatus)
    hforward
  have hthird := hmachine.steps hcode (i := 6) rfl (by simp [hpc]) (by decide) (by exact h.exitStatus)
    hback
  have hfourth := hmachine.steps hcode (i := 7) rfl (by simp [hpc]) (by decide) (by exact h.exitStatus)
    hjump
  refine ⟨_, hfirst.trans (hsecond.trans (hthird.trans hfourth)), ⟨?_, by simp, by simp; omega, ?_,
    h.furtherName, h.output, h.input, h.exitStatus⟩, rfl⟩
  · rw [writeBytes_zeros_succ, h.memory]
  · intro r hc hd
    rw [← h.registers r hc hd]
    simp only [Registers.get_set, if_neg hc.symm, if_neg hd.symm]

theorem steps_clearing (hmachine : Executes machine code 8 start.exitStatus)
    (hcode : Stands code 0 (openingActions cells)) (hroom : base + done + (left + 1) ≤ start.memory.size)
    (hsize : start.memory.size < 2 ^ 64) (h : Clearing start base done (left + 1) s) (hpc : s.pc = 4) :
    ∃ t, machine.Steps (4 * (left + 1)) s t ∧ Clearing start base (done + (left + 1)) 0 t ∧
      t.pc = 8 := by
  induction left generalizing s done with
  | zero => exact steps_round hmachine hcode (by omega) hsize (by omega) h hpc
  | succ left ih =>
    obtain ⟨t, hsteps, ht, hend⟩ := steps_round hmachine hcode (by omega) hsize (by omega) h hpc
    obtain ⟨u, hsteps', hu, hend'⟩ := ih (by omega) ht hend
    refine ⟨u, ?_, ?_, hend'⟩
    · rw [Nat.mul_succ, Nat.add_comm]
      exact hsteps.trans hsteps'
    · rwa [Nat.add_assoc, Nat.add_comm 1] at hu

theorem steps_reserve (hmachine : Executes machine code 8 start.exitStatus)
    (hcode : Stands code 0 (openingActions cells)) (hstack : start.registers.get .rsp = base + cells)
    (hsize : base + cells < 2 ^ 64) (hpc : start.pc = 0) :
    ∃ t, machine.Steps 4 start t ∧ Clearing start base 0 cells t ∧ t.pc = 4 := by
  have hbase : base < 2 ^ 64 := by omega
  have hcount := perform_move_number .rcx (show cells < 2 ^ 64 by omega) start
  have hreserve : State.perform
      { start with registers := start.registers.set .rcx cells, pc := start.pc + 1 }
      (.combine .sub Register.rsp.operand (some Register.rcx.operand)) = .ok { start with
        registers := (start.registers.set .rcx cells).set .rsp base
        zeroFlag := base == 0, pc := start.pc + 2 } := by
    have hword : word (Arithmetic.sub.apply (start.registers.get .rsp) (cells : Nat)) = base := by
      rw [Arithmetic.apply, hstack, Int.natCast_add, Int.add_sub_cancel, word_of_lt hbase]
    rw [perform_combine_registers]
    simp only [Registers.get_set, reduceCtorEq, if_false, if_true, hword]
  have hpointer := perform_move_register (s := { start with
      registers := (start.registers.set .rcx cells).set .rsp base
      zeroFlag := base == 0, pc := start.pc + 2 }) .rbx .rsp (by simp) hbase
  have hcursor := perform_move_register (s := { start with
      registers := ((start.registers.set .rcx cells).set .rsp base).set .rbx base
      zeroFlag := base == 0, pc := start.pc + 3 }) .rdi .rsp (by simp) hbase
  have hfirst := hmachine.steps hcode (i := 0) rfl hpc (by decide) rfl hcount
  have hsecond := hmachine.steps hcode (i := 1) rfl (by simp [hpc]) (by decide) (by rfl) hreserve
  have hthird := hmachine.steps hcode (i := 2) rfl (by simp [hpc]) (by decide) (by rfl) hpointer
  have hfourth := hmachine.steps hcode (i := 3) rfl (by simp [hpc]) (by decide) (by rfl) hcursor
  refine ⟨_, hfirst.trans (hsecond.trans (hthird.trans hfourth)),
    ⟨rfl, by simp, by simp, fun r hc hd => ?_, rfl, rfl, rfl, rfl⟩, by simp [hpc]⟩
  simp only [Registers.get_set, if_neg hc.symm, if_neg hd.symm]

/-- The lines in front of the program reserve a tape at the end of the memory and clear it, whatever
stands in the memory. -/
theorem steps_prologue (hmachine : Executes machine code 8 start.exitStatus)
    (hcode : Stands code 0 (openingActions cells)) (hcells : 1 ≤ cells)
    (hmemory : start.memory.size = base + cells) (hstack : start.registers.get .rsp = base + cells)
    (hsize : base + cells < 2 ^ 64) (hpc : start.pc = 0) :
    ∃ t, machine.Steps (4 + 4 * cells) start t ∧ Clearing start base cells 0 t ∧ t.pc = 8 := by
  obtain ⟨s, hreserve, hs, hfour⟩ := steps_reserve hmachine hcode hstack hsize hpc
  obtain ⟨left, rfl⟩ : ∃ left, cells = left + 1 := Nat.exists_eq_add_of_le' hcells
  obtain ⟨t, hclearing, ht, hend⟩ := steps_clearing hmachine hcode (by omega) (by omega) hs hfour
  rw [Nat.zero_add] at ht
  exact ⟨t, hreserve.trans hclearing, ht, hend⟩

end

variable {emulator : Emulator} {cells : Nat}

theorem writeBytes_zeros (size base cells : Nat) :
    writeBytes (Array.replicate size 0) base (List.replicate cells 0) = Array.replicate size 0 := by
  induction cells with
  | zero => rfl
  | succ cells ih => rw [writeBytes_zeros_succ, ih, Array.setIfInBounds_replicate_self]

/-- Behind the lines in front of the program, a machine whose memory was blank is in a state like the
one in which bare lines start. -/
theorem steps_opening (h : emulator.Standard cells) (hcode : Stands code 0 (openingActions cells))
    (input : List Int) :
    ∃ t, (system code).Steps (4 * cells + 4) (Emulator.blank emulator.memorySize input) t ∧
      Alike 8 (emulator.initial input) t := by
  obtain ⟨hsize, -⟩ := h.memorySize_eq
  have hbound := h.bound
  have hlength : 8 ≤ code.size := by
    obtain ⟨line, hlast⟩ := hcode 7 _ rfl
    exact (Array.getElem?_eq_some_iff.1 hlast).1
  have hmemory : (Emulator.blank emulator.memorySize input).memory.size =
      emulator.tapeBase + cells := by simp [Emulator.blank, hsize]
  have hstack : (Emulator.blank emulator.memorySize input).registers.get .rsp =
      emulator.tapeBase + cells := by simp [Emulator.blank, hsize]
  obtain ⟨t, hsteps, ht, hpc⟩ := steps_prologue (executes_system hlength) hcode h.positive hmemory
    hstack (by omega) rfl
  rw [Nat.add_comm]
  refine ⟨t, hsteps, ⟨hpc, fun r hc hd => ?_, ht.memory.trans (writeBytes_zeros _ _ _), ht.output,
    ht.input, ⟨rfl, ht.exitStatus⟩, ?_, ht.furtherName⟩⟩
  · rw [h.registers_initial]
    exact ht.registers r hc hd
  · rw [h.registers_initial]
    rfl

/-- Behind the program, the machine exits in three steps. -/
theorem steps_closing (hcode : Stands code a closingActions) (hpc : s.pc = a)
    (hexit : s.exitStatus = none) :
    ∃ t, (system code).Steps 3 s t ∧ t.exitStatus = some 0 ∧ t.memory = s.memory ∧
      t.output = s.output ∧ t.registers.get .rbx = s.registers.get .rbx ∧
      t.registers.furtherName = s.registers.furtherName := by
  have hmove : s.perform (.move Register.rax.operand (numberOperand 60)) = .ok
      { s with registers := s.registers.set .rax 60, pc := s.pc + 1 } :=
    perform_move_number .rax (by decide) s
  have hclear : State.perform { s with registers := s.registers.set .rax 60, pc := s.pc + 1 }
      (.combine .xor Register.rdi.operand (some Register.rdi.operand)) = .ok
      { s with
        registers := (s.registers.set .rax 60).set .rdi 0, zeroFlag := true, pc := s.pc + 2 } := by
    rw [perform_combine_registers]
    simp only [Arithmetic.apply, Nat.xor_self]
    rfl
  have hcall : State.perform { s with
        registers := (s.registers.set .rax 60).set .rdi 0, zeroFlag := true, pc := s.pc + 2 }
      .systemCall = .ok { s with
        registers := ((s.registers.set .rax 60).set .rdi 0).set .rcx (s.pc + 3), zeroFlag := true
        exitStatus := some 0, pc := s.pc + 3 } := by
    simp [State.perform, State.systemCall, State.exit, State.advance]
  have hfirst := hcode.steps (i := 0) rfl hpc hexit hmove
  have hsecond := hcode.steps (i := 1) rfl (by simp [hpc]) (by exact hexit) hclear
  have hthird := hcode.steps (i := 2) rfl (by simp [hpc]) (by exact hexit) hcall
  exact ⟨_, hfirst.trans (hsecond.trans hthird), rfl, rfl, rfl, by simp, rfl⟩

end Brainfuck
