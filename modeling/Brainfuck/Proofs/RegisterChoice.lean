import Brainfuck.Proofs.Emulation
import Brainfuck.Proofs.Lockstep
import Brainfuck.Proofs.WrittenLines

/-!
# Code for other registers

The same instructions with the pointer and the cache in other registers. The cache may be one of the
registers that a system call uses, so while outputs are collected two such runs hold different values
there. Still every system call finds what was set for it.

* `Apart` : registers for the pointer and the cache that do not get in each other's way;
* `Instr.Prepared` : what an instruction looks at, beside the pointer and the stack, is the same;
* `Recast` : two states that agree in all that can be observed (`Opcode.exec_recast`,
  `Instr.exec_recast`);
* `Level` : two machines are about to execute the same instruction in such states (`Level.step`);
* `Sibling.outcome_eq`, `outcome_eq_default` : the registers make no difference to the outcome.
-/

namespace Brainfuck

open Machine Codegen

/-- The registers in which system calls take and leave something, and the stack pointer. -/
def callRegisters : List Register := [.rax, .rcx, .rdx, .rsi, .rdi, .rsp]

/-- Registers for the pointer and the cache that generated code can use. Only the cache may be one that
a system call uses. -/
structure Apart (p c : Register) : Prop where
  pointer : p ∉ callRegisters
  cache : c ≠ .rsp
  distinct : p ≠ c

theorem Apart.pointer_ne {p c : Register} (h : Apart p c) : p ≠ .rsp :=
  fun e => h.pointer (by simp [e, callRegisters])

/-- Two states of machines with the pointer in different registers, which agree in all that can be
observed. -/
structure Recast (p q : Register) (s t : State) : Prop where
  pc : t.pc = s.pc
  pointer : t.registers.get q = s.registers.get p
  stack : t.registers.get .rsp = s.registers.get .rsp
  memory : t.memory = s.memory
  output : t.output = s.output
  input : t.input = s.input
  running : s.exitStatus = none ∧ t.exitStatus = none
  plain : s.registers.furtherName = none ∧ t.registers.furtherName = none

def SameIn (s t : State) (r : Register) : Prop := t.registers.get r = s.registers.get r

/-- What an instruction looks at, beside the pointer and the stack, is the same in two states of machines
with the cache in different registers. What was set for a system call is kept up to the call. -/
def Instr.Prepared (c d : Register) (s t : State) : Instr → Prop
  | op (.save _) => t.registers.get d % 256 = s.registers.get c % 256
  | op (.set .rdx _) => SameIn s t .rsi
  | op (.set .rdi _) | op (.set .rax _) => SameIn s t .rsi ∧ SameIn s t .rdx
  | op (.set _ _) => False
  | op .call => s.registers.get .rax ≤ 1 ∧ SameIn s t .rax ∧ SameIn s t .rsi ∧ SameIn s t .rdx
  | leave _ => t.zeroFlag = s.zeroFlag
  | _ => True

theorem Instr.Free.prepared {instr : Instr} (h : instr.Free) (c d : Register) (s t : State) :
    instr.Prepared c d s t := by
  cases instr with
  | op o => cases o <;> trivial
  | leave distance => exact h.elim
  | back distance => trivial

/-- An instruction that sets nothing for the next one feeds only those that look at nothing special. -/
theorem Instr.Feeds.prepared {x y : Instr} (h : x.Feeds y)
    (hx : ∀ o ∈ [Opcode.load, .test, .aimStack, .aimTape], x ≠ op o)
    (hset : ∀ r value, x ≠ op (.set r value)) (c d : Register) (s t : State) :
    y.Prepared c d s t := by
  cases h with
  | free _ h => exact h.prepared c d s t
  | cache | flag | stackAddress | tapeAddress => exact absurd rfl (hx _ (by simp))
  | size | stream | number => exact absurd rfl (hset _ _)

section

variable {p q c d : Register} {s t s' t' : State}

namespace Recast

theorem byte (h : Recast p q s t) (address : Nat) : t.byte address = s.byte address := by
  rw [State.byte, h.memory, State.byte]

theorem set (h : Recast p q s t) {r r' : Register} (hr : r ≠ p ∧ r ≠ .rsp) (hr' : r' ≠ q ∧ r' ≠ .rsp)
    (value value' : Nat) :
    Recast p q { s with registers := s.registers.set r value, pc := s.pc + 1 }
      { t with registers := t.registers.set r' value', pc := t.pc + 1 } := by
  refine ⟨by simp only [h.pc], ?_, ?_, h.memory, h.output, h.input, h.running, h.plain⟩
  · simp only [Registers.get_set, if_neg hr.1, if_neg hr'.1, h.pointer]
  · simp only [Registers.get_set, if_neg hr.2, if_neg hr'.2, h.stack]

theorem set_call (h : Recast p q s t) (hp : p ∉ callRegisters) (hq : q ∉ callRegisters) {r : Register}
    (hr : r ∈ callRegisters) (hstack : r ≠ .rsp) (value : Nat) :
    Recast p q { s with registers := s.registers.set r value, pc := s.pc + 1 }
      { t with registers := t.registers.set r value, pc := t.pc + 1 } :=
  h.set ⟨fun e => hp (e ▸ hr), hstack⟩ ⟨fun e => hq (e ▸ hr), hstack⟩ value value

theorem goto (h : Recast p q s t) {a b : Nat} (hab : b = a) :
    Recast p q { s with pc := a } { t with pc := b } :=
  ⟨hab, h.pointer, h.stack, h.memory, h.output, h.input, h.running, h.plain⟩

theorem write (h : Recast p q s t) (address : Nat) (value : UInt8) (zs zt : Bool) :
    Recast p q
      { s with memory := s.memory.setIfInBounds address value, zeroFlag := zs, pc := s.pc + 1 }
      { t with memory := t.memory.setIfInBounds address value, zeroFlag := zt, pc := t.pc + 1 } :=
  ⟨by simp only [h.pc], h.pointer, h.stack, by simp only [h.memory], h.output, h.input, h.running,
    h.plain⟩

theorem adjust_stack (h : Recast p q s t) (hp : p ≠ .rsp) (hq : q ≠ .rsp) (up : Bool) (amount : Nat) :
    Recast p q (s.adjust .rsp up amount) (t.adjust .rsp up amount) := by
  refine ⟨by simp only [State.adjust, h.pc], ?_, ?_, h.memory, h.output, h.input, h.running, h.plain⟩
  · simp only [State.adjust, Registers.get_set, if_neg hp.symm, if_neg hq.symm, h.pointer]
  · simp only [State.adjust, Registers.get_set, if_true, h.stack]

theorem adjust_pointer (h : Recast p q s t) (hp : p ≠ .rsp) (hq : q ≠ .rsp) (up : Bool) (amount : Nat) :
    Recast p q (s.adjust p up amount) (t.adjust q up amount) := by
  refine ⟨by simp only [State.adjust, h.pc], ?_, ?_, h.memory, h.output, h.input, h.running, h.plain⟩
  · simp only [State.adjust, Registers.get_set, if_true, h.pointer]
  · simp only [State.adjust, Registers.get_set, if_neg hp, if_neg hq, h.stack]

theorem within (h : Recast p q s t) {R : State → State → Prop} {address : Nat} (hnext : R s' t') :
    System.Agree R (s.within address s') (t.within address t') := by
  rw [State.within, State.within, h.memory]
  split
  · exact .ok hnext
  · exact .error _ _ _

theorem returning (h : Recast p q s t) (hp : p ∉ callRegisters) (hq : q ∉ callRegisters) (result : Nat) :
    Recast p q (s.returning result) (t.returning result) := by
  simp only [callRegisters, List.mem_cons, not_or] at hp hq
  refine ⟨?_, ?_, ?_, h.memory, h.output, h.input, h.running, h.plain⟩
  · simp only [State.returning, State.advance, h.pc]
  · simp only [State.returning, State.advance, Registers.get_set, Ne.symm hp.1, Ne.symm hp.2.1,
      Ne.symm hq.1, Ne.symm hq.2.1, if_false, h.pointer]
  · simp only [State.returning, State.advance, Registers.get_set]
    exact h.stack

theorem systemCall (h : Recast p q s t) (hp : p ∉ callRegisters) (hq : q ∉ callRegisters)
    (hprepared : (Instr.op .call).Prepared c d s t) :
    System.Agree (fun s' t' => Recast p q s' t' ∧ s'.pc = s.pc + 1) s.systemCall t.systemCall := by
  obtain ⟨hcall, hrax, hrsi, hrdx⟩ := hprepared
  refine (State.systemCall_agree hcall hrax hrsi hrdx h.memory h.input h.output).imp ?_
  rintro _ _ ⟨memory, input, output, result, rfl, rfl⟩
  refine ⟨Recast.returning ?_ hp hq _, rfl⟩
  exact ⟨h.pc, h.pointer, h.stack, rfl, rfl, rfl, h.running, h.plain⟩

end Recast

/-- What an instruction makes of states that agree: they still do, it has led to the same place, and
what it feeds is prepared. -/
def Instr.Recasts (p q c d : Register) (s : State) (instr : Instr) (s' t' : State) : Prop :=
  Recast p q s' t' ∧ s'.pc ∈ instr.next s.pc ∧ ∀ y, instr.Feeds y → y.Prepared c d s' t'

theorem Opcode.exec_recast {o : Opcode} (hpc : Apart p c) (hqd : Apart q d) (h : Recast p q s t)
    (hprepared : (Instr.op o).Prepared c d s t) :
    System.Agree ((Instr.op o).Recasts p q c d s) (o.exec p c s) (o.exec q d t) := by
  have hset {r : Register} (hr : r ∈ callRegisters) (hstack : r ≠ .rsp) :=
    h.set_call hpc.pointer hqd.pointer hr hstack
  have hnext : s.pc + 1 ∈ (Instr.op o).next s.pc := List.mem_singleton.2 rfl
  cases o <;> simp only [exec, h.pointer, h.stack, h.byte]
  case stack up amount =>
    exact .ok ⟨h.adjust_stack hpc.pointer_ne hqd.pointer_ne up amount, hnext,
      fun y hy => hy.prepared (by simp) (by simp) c d _ _⟩
  case shift up amount =>
    exact .ok ⟨h.adjust_pointer hpc.pointer_ne hqd.pointer_ne up amount, hnext,
      fun y hy => hy.prepared (by simp) (by simp) c d _ _⟩
  case change =>
    exact h.within ⟨h.write _ _ _ _, hnext, fun y hy => hy.prepared (by simp) (by simp) c d _ _⟩
  case load =>
    -- the high bytes of the caches may differ, the low byte is the cell
    refine h.within ⟨h.set ⟨hpc.distinct.symm, hpc.cache⟩ ⟨hqd.distinct.symm, hqd.cache⟩ _ _, hnext,
      fun y hy => ?_⟩
    cases hy with
    | free _ hfree => exact hfree.prepared c d _ _
    | cache slot =>
      simp only [Instr.Prepared, Registers.get_set, if_true]
      omega
  case save slot =>
    have hsame : UInt8.ofNat (t.registers.get d) = UInt8.ofNat (s.registers.get c) := by
      rw [← UInt8.toNat_inj, UInt8.toNat_ofNat', UInt8.toNat_ofNat']
      exact hprepared
    rw [hsame]
    exact h.within ⟨h.write _ _ _ _, hnext, fun y hy => hy.prepared (by simp) (by simp) c d _ _⟩
  case aimStack =>
    refine .ok ⟨hset (by decide) (by decide) _, hnext, fun y hy => ?_⟩
    cases hy with
    | free _ hfree => exact hfree.prepared c d _ _
    | stackAddress => simp only [Instr.Prepared, SameIn, Registers.get_set, if_true]
  case aimTape =>
    refine .ok ⟨hset (by decide) (by decide) _, hnext, fun y hy => ?_⟩
    cases hy with
    | free _ hfree => exact hfree.prepared c d _ _
    | tapeAddress => simp only [Instr.Prepared, SameIn, Registers.get_set, if_true]
  case set r value =>
    cases r <;> first | exact hprepared.elim | skip
    case rdx =>
      refine .ok ⟨hset (by decide) (by decide) _, hnext, fun y hy => ?_⟩
      cases hy with
      | free _ hfree => exact hfree.prepared c d _ _
      | size => simpa [Instr.Prepared, SameIn] using hprepared
    case rdi =>
      refine .ok ⟨hset (by decide) (by decide) _, hnext, fun y hy => ?_⟩
      cases hy with
      | free _ hfree => exact hfree.prepared c d _ _
      | stream => simpa [Instr.Prepared, SameIn] using hprepared
    case rax =>
      refine .ok ⟨hset (by decide) (by decide) _, hnext, fun y hy => ?_⟩
      cases hy with
      | free _ hfree => exact hfree.prepared c d _ _
      | number hvalue =>
        simp only [Instr.Prepared, SameIn, Registers.get_set, if_true] at hprepared ⊢
        exact ⟨by omega, trivial, hprepared⟩
  case call =>
    refine (h.systemCall hpc.pointer hqd.pointer hprepared).imp ?_
    rintro s' t' ⟨hrecast, hplace⟩
    exact ⟨hrecast, hplace ▸ hnext, fun y hy => hy.prepared (by simp) (by simp) c d _ _⟩
  case test =>
    refine h.within ⟨⟨by simp only [h.pc], h.pointer, h.stack, h.memory, h.output, h.input, h.running,
      h.plain⟩, hnext, fun y hy => ?_⟩
    cases hy with
    | free _ hfree => exact hfree.prepared c d _ _
    | flag distance => rfl

theorem Instr.exec_recast {instr : Instr} (hpc : Apart p c) (hqd : Apart q d) (h : Recast p q s t)
    (hprepared : instr.Prepared c d s t) :
    System.Agree (instr.Recasts p q c d s) (instr.exec p c s) (instr.exec q d t) := by
  cases instr with
  | op o => exact Opcode.exec_recast hpc hqd h hprepared
  | leave distance =>
    have hflag : t.zeroFlag = s.zeroFlag := hprepared
    rw [exec, exec]
    by_cases hzero : s.zeroFlag = true
    · rw [if_pos hzero, if_pos (hflag.trans hzero)]
      exact .ok ⟨h.goto (by rw [h.pc]), by simp [next],
        fun y hy => hy.prepared (by simp) (by simp) c d _ _⟩
    · rw [if_neg hzero, if_neg (by rwa [hflag])]
      exact .ok ⟨h.goto (by rw [h.pc]), by simp [next, State.advance],
        fun y hy => hy.prepared (by simp) (by simp) c d _ _⟩
  | back distance =>
    exact .ok ⟨h.goto (by rw [h.pc]), by simp [next],
      fun y hy => hy.prepared (by simp) (by simp) c d _ _⟩

/-! ## Runs -/

/-- Two machines that are about to execute the same instruction, or have come to the end of the
instructions, in states that agree as far as the instruction can see. -/
structure Level (p q c d : Register) (instrs : List Instr) (s t : State) : Prop where
  recast : Recast p q s t
  inside : s.pc ≤ instrs.length
  prepared : ∀ instr : Instr, instrs[s.pc]? = some instr → instr.Prepared c d s t

variable {instrs : List Instr} {code code' : Machine.Code}

theorem Recast.level (h : Recast p q s t) (hlinked : Linked instrs) (hpc : s.pc = 0) :
    Level p q c d instrs s t :=
  ⟨h, by omega, fun instr hi => (hlinked.free instr (by rwa [hpc] at hi)).prepared c d s t⟩

theorem Level.halted (hsize : code.size = instrs.length) (hsize' : code'.size = instrs.length)
    (h : Level p q c d instrs s t) : (system code).halted s = (system code').halted t := by
  simp only [system, hsize, hsize', h.recast.pc, h.recast.running.1, h.recast.running.2]

/-- Two machines whose instructions stand in the same lines make a step, or fail, together. -/
theorem Level.step (hpc : Apart p c) (hqd : Apart q d) (hcode : Holds code p c 0 instrs)
    (hcode' : Holds code' q d 0 instrs) (hlines : code.map Prod.fst = code'.map Prod.fst)
    (hlinked : Linked instrs) (h : Level p q c d instrs s t) (hlt : s.pc < instrs.length) :
    System.Agree (Level p q c d instrs) ((system code).step s) ((system code').step t) := by
  obtain ⟨instr, hinstr⟩ : ∃ instr, instrs[s.pc]? = some instr := ⟨_, List.getElem?_eq_getElem hlt⟩
  obtain ⟨line, action, hfetch, hdoes⟩ : Does code p c s.pc instr := by simpa using hcode.get hinstr
  obtain ⟨line', action', hfetch', hdoes'⟩ : Does code' q d s.pc instr := by
    simpa using hcode'.get hinstr
  obtain rfl : line = line' := by
    have hline : (code.map Prod.fst)[s.pc]? = (code'.map Prod.fst)[s.pc]? := by rw [hlines]
    rw [Array.getElem?_map, Array.getElem?_map, hfetch, hfetch'] at hline
    exact Option.some.inj hline
  obtain ⟨-, hnext⟩ := hlinked.next s.pc instr hinstr
  have hagree := Instr.exec_recast hpc hqd h.recast (h.prepared instr hinstr)
  simp only [system, State.step, h.recast.pc, hfetch, hfetch', hdoes s rfl, hdoes' t h.recast.pc]
  generalize instr.exec p c s = x at hagree
  generalize instr.exec q d t = y at hagree
  cases hagree with
  | error e s' t' => exact .error (line, e) s' t'
  | @ok s' t' hnow =>
    obtain ⟨hrecast, hmem, hfeeds⟩ := hnow
    obtain ⟨hle, hready⟩ := hnext s'.pc hmem
    exact .ok ⟨hrecast, hle, fun y hy => hfeeds y (hready y hy)⟩

/-- Two machines side by side come to the same end after the same number of steps. -/
theorem drive_level (hpc : Apart p c) (hqd : Apart q d) (hcode : Holds code p c 0 instrs)
    (hcode' : Holds code' q d 0 instrs) (hsize : code.size = instrs.length)
    (hlines : code.map Prod.fst = code'.map Prod.fst) (hlinked : Linked instrs)
    (h : Level p q c d instrs s t) (budget : Option Nat) (turns : Nat) :
    ((system code).drive budget turns 0 s).steps = ((system code').drive budget turns 0 t).steps ∧
      ((system code).drive budget turns 0 s).ending = ((system code').drive budget turns 0 t).ending ∧
      (((system code).drive budget turns 0 s).ending = .halted →
        Level p q c d instrs ((system code).drive budget turns 0 s).state
          ((system code').drive budget turns 0 t).state) := by
  have hsize' : code'.size = instrs.length := by
    rw [← hsize, ← Array.size_map, ← hlines, Array.size_map]
  refine System.drive_agree (Level.halted hsize hsize') (fun h' running => ?_) budget turns 0 h
  refine h'.step hpc hqd hcode hcode' hlines hlinked ?_
  rw [← hsize]
  simpa [system, h'.recast.running.1] using running

/-! ## Emulators -/

theorem Machine.Code.map_fst_ofListing (furtherName : Option (List Char)) (listing : Listing) :
    (Code.ofListing furtherName listing).map Prod.fst =
      (listing.instructions.map Instruction.line).toArray := by
  rw [Code.ofListing_eq, List.map_toArray, List.map_map]
  rfl

namespace Machine.Emulator

variable {emulator emulator' : Emulator}

/-- An emulator of the same kind: it differs in the registers only. -/
structure Sibling (emulator emulator' : Emulator) : Prop where
  memorySize : emulator'.memorySize = emulator.memorySize
  stackSize : emulator'.convention.stackSize = emulator.convention.stackSize
  limit : emulator'.limit = emulator.limit

theorem Sibling.tapeBase (h : Sibling emulator emulator') : emulator'.tapeBase = emulator.tapeBase := by
  rw [Emulator.tapeBase, h.memorySize, h.stackSize, Emulator.tapeBase]

theorem Sibling.recast_initial (h : Sibling emulator emulator') (names : emulator.convention.Names p c)
    (names' : emulator'.convention.Names q d) (hp : p ≠ .rsp) (hq : q ≠ .rsp) (input : List Int) :
    Recast p q (emulator.initial input) (emulator'.initial input) := by
  have hregisters := registers_initial_of_names names input
  have hregisters' := registers_initial_of_names names' input
  rw [h.tapeBase] at hregisters'
  refine ⟨rfl, ?_, ?_, ?_, rfl, rfl, ⟨rfl, rfl⟩, ?_, ?_⟩
  · simp only [hregisters, hregisters', Registers.get_set, if_true]
  · simp only [hregisters, hregisters', Registers.get_set, if_neg hp, if_neg hq, if_true]
  · simp only [initial, blank, h.memorySize]
  · rw [hregisters]
    rfl
  · rw [hregisters']
    rfl

/-- The code of a block has the same outcome with other registers. -/
theorem Sibling.outcome_eq (h : Sibling emulator emulator') (names : emulator.convention.Names p c)
    (names' : emulator'.convention.Names q d) (hpc : Apart p c) (hqd : Apart q d) (b : Block)
    (input : List Int) (turns : Nat) :
    (emulator.runLines ((b.lines emulator.convention 0).map Line.text) input turns).1 =
      (emulator'.runLines ((b.lines emulator'.convention 0).map Line.text) input turns).1 := by
  have hrecast := h.recast_initial names names' hpc.pointer_ne hqd.pointer_ne input
  obtain ⟨hcode, hsize⟩ := holds_lines names b
  obtain ⟨hcode', -⟩ := holds_lines names' b
  have hlines : (Code.ofListing none (Listing.ofLines
        ((b.lines emulator.convention 0).map Line.text))).map Prod.fst =
      (Code.ofListing none (Listing.ofLines
        ((b.lines emulator'.convention 0).map Line.text))).map Prod.fst := by
    rw [Code.map_fst_ofListing, Code.map_fst_ofListing, Listing.ofLines, Listing.ofLines,
      lines_ofLinesFrom names names' (isGenerated_block b 0) (isGenerated_block b 0)
        (map_label?_block _ _ b 0)]
  obtain ⟨hsteps, hending, hhalted⟩ := drive_level hpc hqd hcode hcode' hsize hlines (linked_block b)
    (hrecast.level (linked_block b) rfl) (stepBudget emulator.limit) turns
  simp only [runLines, execute, hrecast.plain.1, hrecast.plain.2, h.limit]
  generalize (system (Code.ofListing none _)).drive _ turns 0 (emulator.initial input) = run at *
  generalize (system (Code.ofListing none _)).drive _ turns 0 (emulator'.initial input) = run' at *
  rw [outcome, outcome, ← hending]
  cases hend : run.ending with
  | halted =>
    have hrun := (hhalted hend).recast
    simp only [resultOf_of_names names hrun.plain.1, resultOf_of_names names' hrun.plain.2, h.tapeBase,
      h.memorySize, hsteps, hrun.output, hrun.memory, hrun.pointer, hrun.running.1, hrun.running.2]
  | failed e => rfl
  | exhausted => rfl
  | paused => rfl

def withDefaultRegisters (emulator : Emulator) : Emulator :=
  { emulator with
    convention := { stackSize := emulator.convention.stackSize }
    room := emulator.room }

end Machine.Emulator

end

namespace Machine.Emulator

/-- Compiled for other registers, a program has the outcome that it has with the default registers: the
pointer may be in any register that neither a system call nor the stack uses, and the cache in any low
byte but that of the pointer. -/
theorem outcome_eq_default (emulator : Emulator)
    (hpointer : emulator.convention.pointerRegister ∈
      ["rbx", "rbp", "r8", "r9", "r10", "r11", "r12", "r13", "r14", "r15"].map String.toList)
    (hcache : emulator.convention.cacheRegister ∈
      ["al", "bl", "cl", "dl", "sil", "dil"].map String.toList)
    (hdistinct : Register.ofLowByteName? emulator.convention.cacheRegister ≠
      Register.ofName? emulator.convention.pointerRegister)
    {text : List Char} (htext : flaw? text = none) :
    ∃ lines lines' : List Line,
      ({ convention := emulator.convention } : Generator).generate text = .ok lines ∧
      ({ convention := { stackSize := emulator.convention.stackSize } } : Generator).generate text =
        .ok lines' ∧
      ∀ input turns, (emulator.runLines (lines.map Line.text) input turns).1 =
        (emulator.withDefaultRegisters.runLines (lines'.map Line.text) input turns).1 := by
  obtain ⟨program, rfl⟩ := flaw?_eq_none_iff.1 htext
  obtain ⟨b, rfl, hgen⟩ := exists_common_block program
  obtain ⟨p, hp, hfree⟩ : ∃ p, Register.ofName? emulator.convention.pointerRegister = some p ∧
      p ∉ callRegisters := by
    revert hpointer
    generalize emulator.convention.pointerRegister = name
    simp only [List.map_cons, List.map_nil, List.mem_cons, List.not_mem_nil, or_false]
    rintro (rfl | rfl | rfl | rfl | rfl | rfl | rfl | rfl | rfl | rfl) <;> exact ⟨_, rfl, by decide⟩
  obtain ⟨c, hc, hstack⟩ : ∃ c, Register.ofLowByteName? emulator.convention.cacheRegister = some c ∧
      c ≠ .rsp := by
    revert hcache
    generalize emulator.convention.cacheRegister = name
    simp only [List.map_cons, List.map_nil, List.mem_cons, List.not_mem_nil, or_false]
    rintro (rfl | rfl | rfl | rfl | rfl | rfl) <;> exact ⟨_, rfl, by decide⟩
  refine ⟨_, _, (hgen rfl).1.generate, (hgen rfl).1.generate, fun input turns => ?_⟩
  have hsibling : Sibling emulator emulator.withDefaultRegisters := ⟨rfl, rfl, rfl⟩
  refine hsibling.outcome_eq ⟨hp, hc⟩ (Convention.names_default _) ⟨hfree, hstack, ?_⟩
    ⟨by decide, by decide, by decide⟩ b input turns
  rintro rfl
  exact hdistinct (hc.trans hp.symm)

/-- Bytes are copied with the pointer in `r12` and the cache in the low byte of a register in which
system calls take their size. -/
theorem outcome_eq_default_copy :
    ∃ lines lines' : List Line,
      ({ convention := ⟨"r12".toList, "dl".toList, "rcx".toList, 3⟩ } : Generator).generate
        ",[.>,.<,]".toList = .ok lines ∧
      ({ convention := { stackSize := 3 } } : Generator).generate ",[.>,.<,]".toList = .ok lines' ∧
      ∀ input turns,
        ((ofSize 8 ⟨"r12".toList, "dl".toList, "rcx".toList, 3⟩ (by decide) (some 100)).runLines
          (lines.map Line.text) input turns).1 =
        ((ofSize 8 { stackSize := 3 } (by decide) (some 100)).runLines (lines'.map Line.text) input
          turns).1 :=
  outcome_eq_default (ofSize 8 ⟨"r12".toList, "dl".toList, "rcx".toList, 3⟩ (by decide) (some 100))
    (by decide) (by decide) (by decide) (by decide)

end Machine.Emulator

end Brainfuck
