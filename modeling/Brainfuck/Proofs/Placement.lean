import Brainfuck.Proofs.Opcode
import Brainfuck.Proofs.Steps

/-!
# Instructions in place

* `Instr` : the instructions of generated code, the jumps of a loop given by their distances;
* `Holds code pointer cache a instrs` : the machine, with its counter in the stretch of `code` from
  `a` on, does what `instrs` say (`holds_append`, `Holds.get`);
* `Does.running`, `Does.step`, `Does.fail` : the steps of the machine at such an instruction, which are
  those of its effect (`Does.exec_of_ok`, `Does.exec_of_error`);
* `getElem?_writeBytes` : the bytes of a memory that has been written to;
* `execAll` : the effect of instructions that do not jump, one after the other;
* `steps_of_execAll`, `fails_of_execAll` : the machine follows it.
-/

namespace Brainfuck

open Machine

/-- The instructions of generated code. -/
inductive Instr where
  | op (o : Opcode)
  /-- Go forward if the zero flag is set. -/
  | leave (distance : Nat)
  | back (distance : Nat)
  deriving DecidableEq

def Instr.exec (pointer cache : Register) (s : State) : Instr → Except (Fault × State) State
  | op o => o.exec pointer cache s
  | leave distance => .ok (if s.zeroFlag then { s with pc := s.pc + distance } else s.advance)
  | back distance => .ok { s with pc := s.pc - distance }

/-- What stands in the code at `a` has the effect of an instruction. -/
def Does (code : Machine.Code) (pointer cache : Register) (a : Nat) (instr : Instr) : Prop :=
  ∃ line action, code[a]? = some (line, action) ∧
    ∀ s : State, s.pc = a → s.perform action = instr.exec pointer cache s

/-- What stands in the code from `a` on has the effect of given instructions. -/
def Holds (code : Machine.Code) (pointer cache : Register) : Nat → List Instr → Prop
  | _, [] => True
  | a, instr :: rest => Does code pointer cache a instr ∧ Holds code pointer cache (a + 1) rest

variable {code : Machine.Code} {pointer cache : Register}

theorem holds_append {a : Nat} {xs ys : List Instr} :
    Holds code pointer cache a (xs ++ ys) ↔
      Holds code pointer cache a xs ∧ Holds code pointer cache (a + xs.length) ys := by
  induction xs generalizing a with
  | nil => simp [Holds]
  | cons x xs ih =>
    rw [List.cons_append, Holds, Holds, ih, and_assoc, List.length_cons, Nat.add_assoc a 1,
      Nat.add_comm 1]

theorem Holds.get {a i : Nat} {instrs : List Instr} {instr : Instr}
    (h : Holds code pointer cache a instrs) (hi : instrs[i]? = some instr) :
    Does code pointer cache (a + i) instr := by
  induction instrs generalizing a i with
  | nil => simp at hi
  | cons x xs ih =>
    cases i with
    | zero =>
      obtain rfl : x = instr := by simpa using hi
      exact h.1
    | succ i =>
      rw [Nat.add_comm i 1, ← Nat.add_assoc]
      exact ih h.2 (by simpa using hi)

namespace Does

variable {a : Nat} {instr : Instr} {s t : State}

theorem running (h : Does code pointer cache a instr) (hpc : s.pc = a)
    (hexit : s.exitStatus = none) : (system code).halted s = false := by
  obtain ⟨line, action, hcode, -⟩ := h
  obtain ⟨hlt, -⟩ := Array.getElem?_eq_some_iff.1 hcode
  simp only [system, hexit, Option.isSome_none, Bool.or_false, decide_eq_false_iff_not]
  omega

theorem step (h : Does code pointer cache a instr) (hpc : s.pc = a)
    (ok : instr.exec pointer cache s = .ok t) : (system code).step s = .ok t := by
  obtain ⟨line, action, hcode, hdoes⟩ := h
  simp only [system, State.step, hpc, hcode, hdoes s hpc, ok]

theorem fail {f : Fault} (h : Does code pointer cache a instr) (hpc : s.pc = a)
    (failed : instr.exec pointer cache s = .error (f, t)) :
    ∃ line, (system code).step s = .error ((line, f), t) := by
  obtain ⟨line, action, hcode, hdoes⟩ := h
  refine ⟨line, ?_⟩
  simp only [system, State.step, hpc, hcode, hdoes s hpc, failed]

theorem exec_of_ok (h : Does code pointer cache a instr) (hpc : s.pc = a)
    (ok : (system code).step s = .ok t) : instr.exec pointer cache s = .ok t := by
  cases hexec : instr.exec pointer cache s with
  | ok u =>
    rw [h.step hpc hexec] at ok
    exact congrArg Except.ok (Except.ok.inj ok)
  | error e =>
    obtain ⟨line, failed⟩ := h.fail hpc hexec
    rw [failed] at ok
    contradiction

theorem exec_of_error {e : Nat × Fault} (h : Does code pointer cache a instr) (hpc : s.pc = a)
    (failed : (system code).step s = .error (e, t)) : ∃ f, instr.exec pointer cache s = .error (f, t) := by
  cases hexec : instr.exec pointer cache s with
  | ok u =>
    rw [h.step hpc hexec] at failed
    contradiction
  | error failure =>
    obtain ⟨f, u⟩ := failure
    obtain ⟨line, failed'⟩ := h.fail hpc hexec
    rw [failed'] at failed
    cases failed
    exact ⟨f, rfl⟩

theorem steps (h : Does code pointer cache a instr) (hpc : s.pc = a) (hexit : s.exitStatus = none)
    (ok : instr.exec pointer cache s = .ok t) : (system code).Steps 1 s t :=
  .single (h.running hpc hexit) (h.step hpc ok)

end Does

/-! ## Instructions that do not jump -/

theorem size_writeBytes (memory : Array UInt8) (address : Nat) (bytes : List UInt8) :
    (writeBytes memory address bytes).size = memory.size := by
  induction bytes generalizing memory address with
  | nil => rfl
  | cons byte bytes ih => rw [writeBytes, ih, Array.size_setIfInBounds]

theorem getElem?_writeBytes {memory : Array UInt8} {address : Nat} {bytes : List UInt8}
    (h : address + bytes.length ≤ memory.size) (i : Nat) :
    (writeBytes memory address bytes)[i]? =
      if address ≤ i ∧ i < address + bytes.length then bytes[i - address]? else memory[i]? := by
  induction bytes generalizing memory address with
  | nil =>
    rw [if_neg (by simp)]
    rfl
  | cons byte bytes ih =>
    rw [List.length_cons] at h ⊢
    rw [writeBytes, ih (by rw [Array.size_setIfInBounds]; omega), Array.getElem?_setIfInBounds]
    by_cases hrest : address + 1 ≤ i ∧ i < address + 1 + bytes.length
    · rw [if_pos hrest, if_pos (by omega), show i - address = i - (address + 1) + 1 by omega,
        List.getElem?_cons_succ]
    · rw [if_neg hrest]
      by_cases hfirst : address = i
      · rw [if_pos hfirst, if_pos (by omega), if_pos (by omega), hfirst, Nat.sub_self,
          List.getElem?_cons_zero]
      · rw [if_neg hfirst, if_neg (by omega)]

theorem Machine.State.of_within {s t next : State} {address : Nat}
    (h : s.within address next = .ok t) : address < s.memory.size ∧ t = next := by
  unfold State.within at h
  split at h
  · exact ⟨by assumption, by cases h; rfl⟩
  · contradiction

theorem Machine.State.systemCall_frame {s t : State} (h : s.systemCall = .ok t) :
    t.pc = s.pc + 1 ∧ t.memory.size = s.memory.size ∧
      (t.exitStatus = none → s.exitStatus = none) := by
  unfold State.systemCall at h
  split at h
  · simp only [State.readInput] at h
    split at h
    · contradiction
    · cases h
      exact ⟨rfl, size_writeBytes _ _ _, id⟩
  · simp only [State.writeOutput] at h
    split at h
    · contradiction
    · cases h
      exact ⟨rfl, rfl, id⟩
  · cases h
    exact ⟨rfl, rfl, fun h => by contradiction⟩
  · contradiction

/-- An instruction that does not jump goes on to the next one, keeps the size of the memory, and does
not take back an exit. -/
theorem Opcode.exec_frame {o : Opcode} {s t : State} (h : o.exec pointer cache s = .ok t) :
    t.pc = s.pc + 1 ∧ t.memory.size = s.memory.size ∧
      (t.exitStatus = none → s.exitStatus = none) := by
  cases o <;> simp only [exec] at h
  case change | save =>
    obtain ⟨-, rfl⟩ := State.of_within h
    exact ⟨rfl, by simp, id⟩
  case load | test =>
    obtain ⟨-, rfl⟩ := State.of_within h
    exact ⟨rfl, rfl, id⟩
  case call => exact State.systemCall_frame h
  all_goals
    cases h
    exact ⟨rfl, rfl, id⟩

theorem Opcode.exitStatus_exec {o : Opcode} {s t : State} (h : o.exec pointer cache s = .ok t)
    (ho : o ≠ .call) : t.exitStatus = s.exitStatus := by
  cases o <;> simp only [exec] at h
  case change | save | load | test =>
    obtain ⟨-, rfl⟩ := State.of_within h
    rfl
  case call => contradiction
  all_goals
    cases h
    rfl

def execAll (pointer cache : Register) : List Opcode → State → Except (Fault × State) State
  | [], s => .ok s
  | o :: rest, s =>
    match o.exec pointer cache s with
    | .ok t => execAll pointer cache rest t
    | .error e => .error e

theorem execAll_cons_of_ok {o : Opcode} {s t : State} (h : o.exec pointer cache s = .ok t)
    (rest : List Opcode) : execAll pointer cache (o :: rest) s = execAll pointer cache rest t := by
  rw [execAll, h]

theorem execAll_cons_ok {o : Opcode} {rest : List Opcode} {s t : State}
    (h : execAll pointer cache (o :: rest) s = .ok t) :
    ∃ u, o.exec pointer cache s = .ok u ∧ execAll pointer cache rest u = .ok t := by
  rw [execAll] at h
  cases ho : o.exec pointer cache s with
  | error e => rw [ho] at h; contradiction
  | ok u =>
    rw [ho] at h
    exact ⟨u, rfl, h⟩

theorem execAll_append_of_ok {xs : List Opcode} {s t : State}
    (h : execAll pointer cache xs s = .ok t) (ys : List Opcode) :
    execAll pointer cache (xs ++ ys) s = execAll pointer cache ys t := by
  induction xs generalizing s with
  | nil =>
    cases h
    rfl
  | cons o xs ih =>
    obtain ⟨u, ho, hrest⟩ := execAll_cons_ok h
    rw [List.cons_append, execAll_cons_of_ok ho, ih hrest]

theorem execAll_append_ok {xs ys : List Opcode} {s t : State}
    (h : execAll pointer cache (xs ++ ys) s = .ok t) :
    ∃ u, execAll pointer cache xs s = .ok u ∧ execAll pointer cache ys u = .ok t := by
  induction xs generalizing s with
  | nil => exact ⟨s, rfl, h⟩
  | cons o xs ih =>
    obtain ⟨v, ho, hrest⟩ := execAll_cons_ok h
    obtain ⟨u, hxs, hys⟩ := ih hrest
    exact ⟨u, by rw [execAll_cons_of_ok ho, hxs], hys⟩

theorem execAll_frame {os : List Opcode} {s t : State} (h : execAll pointer cache os s = .ok t) :
    t.pc = s.pc + os.length ∧ t.memory.size = s.memory.size ∧
      (t.exitStatus = none → s.exitStatus = none) := by
  induction os generalizing s with
  | nil =>
    cases h
    exact ⟨rfl, rfl, id⟩
  | cons o os ih =>
    obtain ⟨u, ho, hrest⟩ := execAll_cons_ok h
    obtain ⟨hpc, hsize, hexit⟩ := Opcode.exec_frame ho
    obtain ⟨hpc', hsize', hexit'⟩ := ih hrest
    refine ⟨?_, hsize'.trans hsize, hexit ∘ hexit'⟩
    rw [hpc', hpc, List.length_cons]
    omega

/-- The machine follows instructions that do not jump, if it has not exited behind them. -/
theorem steps_of_execAll {os : List Opcode} {a : Nat} {s t : State}
    (hcode : Holds code pointer cache a (os.map .op)) (hpc : s.pc = a)
    (ok : execAll pointer cache os s = .ok t) (hexit : t.exitStatus = none) :
    (system code).Steps os.length s t := by
  induction os generalizing a s with
  | nil =>
    cases ok
    exact .refl _
  | cons o os ih =>
    obtain ⟨u, ho, hrest⟩ := execAll_cons_ok ok
    obtain ⟨hpc', -, hexit'⟩ := Opcode.exec_frame ho
    have hs : s.exitStatus = none := hexit' ((execAll_frame hrest).2.2 hexit)
    rw [List.length_cons, Nat.add_comm]
    exact (hcode.1.steps hpc hs ho).trans (ih hcode.2 (by rw [hpc', hpc]) hrest)

/-- The machine fails where instructions fail that neither jump nor call the system. -/
theorem fails_of_execAll {os : List Opcode} {a : Nat} {s t : State} {f : Fault}
    (hcode : Holds code pointer cache a (os.map .op)) (hpc : s.pc = a)
    (failed : execAll pointer cache os s = .error (f, t)) (hexit : s.exitStatus = none)
    (hcall : .call ∉ os) :
    ∃ n u e, (system code).Steps n s u ∧ (system code).halted u = false ∧
      (system code).step u = .error (e, t) := by
  induction os generalizing a s with
  | nil => contradiction
  | cons o os ih =>
    rw [execAll] at failed
    cases ho : o.exec pointer cache s with
    | error e =>
      rw [ho] at failed
      cases failed
      obtain ⟨line, hstep⟩ := hcode.1.fail hpc ho
      exact ⟨0, s, _, .refl s, hcode.1.running hpc hexit, hstep⟩
    | ok u =>
      rw [ho] at failed
      have hne : o ≠ .call := fun h => hcall (by simp [h])
      have hu : u.exitStatus = none := (Opcode.exitStatus_exec ho hne).trans hexit
      have hpc' : u.pc = a + 1 := by rw [(Opcode.exec_frame ho).1, hpc]
      obtain ⟨n, v, e, hsteps, hrest⟩ :=
        ih hcode.2 hpc' failed hu (fun h => hcall (List.mem_cons_of_mem o h))
      exact ⟨1 + n, v, e, (hcode.1.steps hpc hexit ho).trans hsteps, hrest⟩

end Brainfuck
