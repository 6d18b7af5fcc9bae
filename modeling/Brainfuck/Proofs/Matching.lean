import Brainfuck.Proofs.Effects

/-!
# Stores and machine states

`Matches base reserved buffer st s` says that a machine state belongs to a store: the tape lies in the
memory from `base` on, the pointer is in `rbx`, and `reserved` bytes below the tape, of which the
first hold the bytes in `buffer`, are taken for outputs that are still to be written.

* `matches_row`, `matches_slot`, `matches_fill` : rows and the filling of the output buffer;
* `matches_print`, `matches_read` : what is done around the two system calls;
* `matches_batch` : the instructions of a batch do what its commands do (`Batch.Fits`).
-/

namespace Brainfuck

open Machine Codegen

/-- A machine state that belongs to a store. -/
structure Matches (base reserved : Nat) (buffer : List UInt8) (st : Store) (s : State) : Prop where
  size : s.memory.size = base + st.tape.size
  bound : base + st.tape.size < 2 ^ 64
  onTape : st.OnTape
  tape : ∀ i < st.tape.size, s.byte (base + i) = st.tape.getD i 0
  pointer : s.registers.get .rbx = base + st.pointer
  stack : s.registers.get .rsp + reserved = base
  buffered : ∀ i < buffer.length, s.byte (s.registers.get .rsp + i) = buffer.getD i 0
  pending : buffer.length ≤ reserved
  output : s.output ++ buffer.toArray = st.output
  input : s.input = st.input
  running : s.exitStatus = none
  plain : s.registers.furtherName = none

variable {base reserved : Nat} {buffer : List UInt8} {atEnd : Option UInt8} {st st' : Store}
  {s t : State}

theorem getD_setIfInBounds {memory : Array UInt8} {address : Nat} (h : address < memory.size)
    (value : UInt8) (i : Nat) :
    (memory.setIfInBounds address value).getD i 0 =
      if i = address then value else memory.getD i 0 := by
  by_cases hi : i = address
  · subst hi
    simp [h]
  · simp [Array.getD_eq_getD_getElem?, hi, Ne.symm hi]

namespace Matches

/-- What belongs to a store is untouched by the other registers, the flag and the counter. -/
theorem frame (h : Matches base reserved buffer st s) (hmemory : t.memory = s.memory)
    (hpointer : t.registers.get .rbx = s.registers.get .rbx)
    (hstack : t.registers.get .rsp = s.registers.get .rsp) (houtput : t.output = s.output)
    (hinput : t.input = s.input) (hrunning : t.exitStatus = s.exitStatus)
    (hplain : t.registers.furtherName = s.registers.furtherName) :
    Matches base reserved buffer st t := by
  have hbyte : ∀ i, t.byte i = s.byte i := fun i => by rw [State.byte, State.byte, hmemory]
  exact ⟨hmemory ▸ h.size, h.bound, h.onTape, fun i hi => hbyte _ ▸ h.tape i hi,
    hpointer.trans h.pointer, hstack ▸ h.stack, fun i hi => by rw [hbyte, hstack, h.buffered i hi],
    h.pending, houtput ▸ h.output, hinput.trans h.input, hrunning.trans h.running,
    hplain.trans h.plain⟩

theorem set (h : Matches base reserved buffer st s) {r : Register} (hr : r ≠ .rbx) (hr' : r ≠ .rsp)
    (value pc : Nat) :
    Matches base reserved buffer st { s with registers := s.registers.set r value, pc := pc } :=
  h.frame rfl (by simp [hr]) (by simp [hr']) rfl rfl rfl rfl

theorem pointer_lt (h : Matches base reserved buffer st s) :
    s.registers.get .rbx < s.memory.size := by
  have : st.pointer < st.tape.size := h.onTape
  rw [h.pointer, h.size]
  omega

theorem byte_pointer (h : Matches base reserved buffer st s) :
    s.byte (s.registers.get .rbx) = st.current := by
  rw [h.pointer, h.tape _ h.onTape, Store.current]

theorem put (h : Matches base reserved buffer st s) (value : UInt8) (flag : Bool) (pc : Nat) :
    Matches base reserved buffer (st.put value)
      { s with
        memory := s.memory.setIfInBounds (s.registers.get .rbx) value, zeroFlag := flag, pc := pc } := by
  have hlt := h.pointer_lt
  have htape : st.pointer < st.tape.size := h.onTape
  refine ⟨?_, ?_, Store.onTape_put h.onTape value, fun i hi => ?_, h.pointer, h.stack,
    fun i hi => ?_, h.pending, h.output, h.input, h.running, h.plain⟩
  · rw [Array.size_setIfInBounds, Store.size_put]
    exact h.size
  · rw [Store.size_put]
    exact h.bound
  · rw [Store.size_put] at hi
    have hcell := h.tape i hi
    simp only [State.byte, Store.put] at hcell ⊢
    rw [getD_setIfInBounds hlt, getD_setIfInBounds htape, hcell, h.pointer]
    simp only [Nat.add_left_cancel_iff]
  · have hold := h.buffered i hi
    have := h.pending
    have := h.stack
    simp only [State.byte] at hold ⊢
    rw [getD_setIfInBounds hlt, if_neg (by rw [h.pointer]; omega), hold]

theorem move (h : Matches base reserved buffer st s) {pointer : Nat} (hp : pointer < st.tape.size)
    (flag : Bool) (pc : Nat) :
    Matches base reserved buffer { st with pointer := pointer }
      { s with
        registers := s.registers.set .rbx (base + pointer), zeroFlag := flag, pc := pc } := by
  have hstack : (s.registers.set .rbx (base + pointer)).get .rsp = s.registers.get .rsp := by simp
  refine ⟨h.size, h.bound, hp, h.tape, by simp, ?_, fun i hi => ?_, h.pending, h.output, h.input,
    h.running, h.plain⟩
  · rw [hstack]
    exact h.stack
  · rw [hstack]
    exact h.buffered i hi

end Matches

/-! ## Rows -/

theorem word_of_lt {n : Nat} (h : n < 2 ^ 64) : word n = n := by
  rw [Opcode.word_natCast, Nat.mod_eq_of_lt h]

theorem adjust_eq {r : Register} {up : Bool} {amount result : Nat}
    (h : (if up then (s.registers.get r : Int) + amount else s.registers.get r - amount) = result)
    (hlt : result < 2 ^ 64) :
    s.adjust r up amount =
      { s with
        registers := s.registers.set r result, zeroFlag := result == 0, pc := s.pc + 1 } := by
  rw [State.adjust, h, word_of_lt hlt]

theorem ofInt_natCast (n : Nat) : UInt8.ofInt n = UInt8.ofNat n := by
  have : ((n : Int) % 2 ^ 8).toNat = n % 2 ^ 8 := by omega
  rw [UInt8.ofInt, this, UInt8.ofNat_mod_size]

theorem changed_ofInt (delta : Int) (value : UInt8) :
    changed (decide (0 < delta)) value (delta.natAbs % 256) = value + UInt8.ofInt delta := by
  have hmod : UInt8.ofNat (delta.natAbs % 256) = UInt8.ofNat delta.natAbs := UInt8.ofNat_mod_size
  rw [changed, hmod]
  by_cases h : 0 < delta
  · have hcast : UInt8.ofInt delta = UInt8.ofNat delta.natAbs := by
      rw [← ofInt_natCast, Int.natAbs_of_nonneg (by omega)]
    rw [if_pos (by simpa using h), hcast]
  · have hcast : UInt8.ofInt delta = -UInt8.ofNat delta.natAbs := by
      rw [← ofInt_natCast, ← UInt8.ofInt_neg, show -(delta.natAbs : Int) = delta by omega]
    rw [if_neg (by simpa using h), hcast, UInt8.sub_eq_add_neg]

theorem ofInt_eq_zero {delta : Int} (h : delta.natAbs % 256 = 0) : UInt8.ofInt delta = 0 := by
  have := changed_ofInt delta 0
  rw [h, UInt8.zero_add] at this
  rw [← this, changed]
  split <;> rfl

theorem matches_change {ups : List Bool} (h : Matches base reserved buffer st s)
    (hrun : runAll atEnd (Row.change ups).commands st = .ok st') :
    ∃ t, execAll .rbx .rcx (Row.change ups).code s = .ok t ∧ Matches base reserved buffer st' t := by
  obtain rfl := runAll_change h.onTape hrun
  rw [Row.code, adjustment]
  by_cases hzero : (net ups).natAbs % 256 = 0
  · refine ⟨s, by rw [if_pos hzero]; rfl, ?_⟩
    rwa [ofInt_eq_zero hzero, UInt8.add_zero, Store.put_current h.onTape]
  · rw [if_neg hzero, ← changed_ofInt, ← h.byte_pointer]
    have hexec : (Opcode.change (decide (0 < net ups)) ((net ups).natAbs % 256)).exec .rbx .rcx s =
        .ok _ := if_pos h.pointer_lt
    exact ⟨_, execAll_cons_of_ok hexec [], h.put _ _ _⟩

theorem matches_shift {ups : List Bool} (h : Matches base reserved buffer st s)
    (hrun : runAll atEnd (Row.shift ups).commands st = .ok st') :
    ∃ t, execAll .rbx .rcx (Row.shift ups).code s = .ok t ∧ Matches base reserved buffer st' t := by
  obtain ⟨hpointer, hst'⟩ := runAll_shift hrun
  have hon : st'.pointer < st.tape.size := by
    obtain ⟨hon, hsize⟩ := runAll_onTape hrun h.onTape
    rw [← hsize]
    exact hon
  rw [Row.code, adjustment]
  by_cases hzero : (net ups).natAbs = 0
  · have hsame : st' = st := by rw [hst', show st'.pointer = st.pointer by omega]
    exact ⟨s, by rw [if_pos hzero]; rfl, by rwa [hsame]⟩
  · have hsum : (if decide (0 < net ups) then (s.registers.get .rbx : Int) + (net ups).natAbs
        else s.registers.get .rbx - (net ups).natAbs) = ((base + st'.pointer : Nat) : Int) := by
      rw [h.pointer]
      by_cases hup : 0 < net ups
      · rw [if_pos (decide_eq_true hup)]
        omega
      · rw [if_neg (by simpa using hup)]
        omega
    have hlt : base + st'.pointer < 2 ^ 64 := by
      have := h.bound
      omega
    have hexec : (Opcode.shift (decide (0 < net ups)) (net ups).natAbs).exec .rbx .rcx s = .ok _ :=
      congrArg Except.ok (adjust_eq hsum hlt)
    rw [if_neg hzero, hst']
    exact ⟨_, execAll_cons_of_ok hexec [], h.move hon _ _⟩

theorem matches_row {r : Row} (h : Matches base reserved buffer st s)
    (hrun : runAll atEnd r.commands st = .ok st') :
    ∃ t, execAll .rbx .rcx r.code s = .ok t ∧ Matches base reserved buffer st' t := by
  cases r with
  | change ups => exact matches_change h hrun
  | shift ups => exact matches_shift h hrun

theorem matches_rows {rows : List Row} (h : Matches base reserved buffer st s)
    (hrun : runAll atEnd (rows.flatMap Row.commands) st = .ok st') :
    ∃ t, execAll .rbx .rcx (rows.flatMap Row.code) s = .ok t ∧
      Matches base reserved buffer st' t := by
  induction rows generalizing st s with
  | nil =>
    cases hrun
    exact ⟨s, rfl, h⟩
  | cons r rows ih =>
    obtain ⟨st₁, hfirst, hrest⟩ := runAll_append_inv hrun
    obtain ⟨s₁, hexec, h₁⟩ := matches_row h hfirst
    obtain ⟨t, hexec', ht⟩ := ih h₁ hrest
    refine ⟨t, ?_, ht⟩
    rw [List.flatMap_cons, execAll_append_of_ok hexec, hexec']

/-! ## Outputs -/

theorem ofNat_lowByte (old : Nat) (value : UInt8) :
    UInt8.ofNat ((old - old % 256) % 2 ^ 64 + value.toNat) = value := by
  have := value.toNat_lt
  apply UInt8.toNat_inj.1
  rw [UInt8.toNat_ofNat']
  omega

theorem Matches.save (h : Matches base reserved buffer st s) (hslot : buffer.length < reserved)
    (value : UInt8) (pc : Nat) :
    Matches base reserved (buffer ++ [value]) { st with output := st.output.push value }
      { s with
        memory := s.memory.setIfInBounds (s.registers.get .rsp + buffer.length) value, pc := pc } := by
  have hstack := h.stack
  have hlt : s.registers.get .rsp + buffer.length < s.memory.size := by
    rw [h.size]
    omega
  refine ⟨?_, h.bound, h.onTape, fun i hi => ?_, h.pointer, h.stack, fun i hi => ?_, ?_, ?_, h.input,
    h.running, h.plain⟩
  · rw [Array.size_setIfInBounds]
    exact h.size
  · have hcell := h.tape i hi
    simp only [State.byte] at hcell ⊢
    rw [getD_setIfInBounds hlt, if_neg (by omega), hcell]
  · simp only [State.byte]
    rw [getD_setIfInBounds hlt]
    by_cases hlast : i = buffer.length
    · subst hlast
      simp
    · have hold : i < buffer.length := by
        rw [List.length_append, List.length_singleton] at hi
        omega
      have hcell := h.buffered i hold
      simp only [State.byte] at hcell
      rw [if_neg (by omega), hcell]
      simp [List.getD_eq_getElem?_getD, List.getElem?_append_left hold]
  · rw [List.length_append, List.length_singleton]
    omega
  · rw [← h.output]
    apply Array.toList_inj.1
    simp

/-- Copying the current cell into the next free slot of the output buffer. -/
theorem matches_slot (h : Matches base reserved buffer st s) (hslot : buffer.length < reserved) :
    ∃ t, execAll .rbx .rcx [.load, .save buffer.length] s = .ok t ∧
      Matches base reserved (buffer ++ [st.current])
        { st with output := st.output.push st.current } t := by
  have hload : Opcode.load.exec .rbx .rcx s = .ok _ := if_pos h.pointer_lt
  have hloaded := h.set (by decide : Register.rcx ≠ .rbx) (by decide) (((s.registers.get .rcx -
    s.registers.get .rcx % 256) % 2 ^ 64) + (s.byte (s.registers.get .rbx)).toNat) (s.pc + 1)
  generalize hu : ({ s with registers := s.registers.set .rcx _, pc := s.pc + 1 } : State) = u
    at hload hloaded
  have hcache : UInt8.ofNat (u.registers.get .rcx) = st.current := by
    rw [← hu]
    simp only [Registers.get_set, if_true]
    rw [ofNat_lowByte, h.byte_pointer]
  have hlt : u.registers.get .rsp + buffer.length < u.memory.size := by
    have := hloaded.stack
    rw [hloaded.size]
    omega
  have hsave : (Opcode.save buffer.length).exec .rbx .rcx u = .ok _ := if_pos hlt
  rw [hcache] at hsave
  exact ⟨_, by rw [execAll_cons_of_ok hload, execAll_cons_of_ok hsave]; rfl,
    hloaded.save hslot _ _⟩

theorem runAll_output_cons {commands : List Command} :
    runAll atEnd (.output :: commands) st =
      runAll atEnd commands { st with output := st.output.push st.current } := rfl

theorem matches_fill {gaps : List (List Row)} (h : Matches base reserved buffer st s)
    (hroom : buffer.length + gaps.length ≤ reserved)
    (hrun : runAll atEnd (printed gaps) st = .ok st') :
    ∃ t buffer', execAll .rbx .rcx (fill buffer.length gaps) s = .ok t ∧
      Matches base reserved buffer' st' t ∧ buffer'.length = buffer.length + gaps.length := by
  induction gaps generalizing buffer st s with
  | nil =>
    cases hrun
    exact ⟨s, buffer, rfl, h, rfl⟩
  | cons rows gaps ih =>
    have hprinted : printed (rows :: gaps) = rows.flatMap Row.commands ++ .output :: printed gaps := by
      simp [printed]
    rw [List.length_cons] at hroom
    rw [hprinted] at hrun
    obtain ⟨st₁, hrows, hrest⟩ := runAll_append_inv hrun
    rw [runAll_output_cons] at hrest
    obtain ⟨s₁, hexec₁, h₁⟩ := matches_rows h hrows
    obtain ⟨s₂, hexec₂, h₂⟩ := matches_slot h₁ (by omega)
    have hlength : (buffer ++ [st₁.current]).length = buffer.length + 1 := by simp
    obtain ⟨t, buffer', hexec, ht, hbuffer⟩ := ih h₂ (by omega) hrest
    rw [hlength] at hexec hbuffer
    refine ⟨t, buffer', ?_, ht, by rw [hbuffer, List.length_cons]; omega⟩
    rw [fill, execAll_append_of_ok hexec₁]
    exact (execAll_append_of_ok hexec₂ _).trans hexec

/-! ## System calls -/

theorem checkRange_of_le {address length : Nat} (h : address + length ≤ s.memory.size) :
    s.checkRange address length = .ok address := by
  rw [State.checkRange, if_neg (by omega), Int.toNat_natCast]

theorem systemCall_write (hcall : s.registers.get .rax = 1)
    (hrange : s.registers.get .rsi + s.registers.get .rdx ≤ s.memory.size) :
    s.systemCall =
      .ok ({ s with
        output := s.output ++ s.memory.extract (s.registers.get .rsi)
          (s.registers.get .rsi + s.registers.get .rdx) }.returning (s.registers.get .rdx)) := by
  simp only [State.systemCall, hcall, State.writeOutput, checkRange_of_le hrange]

theorem systemCall_read (hcall : s.registers.get .rax = 0)
    (hrange : s.registers.get .rsi + (s.input.take (s.registers.get .rdx)).length ≤ s.memory.size) :
    s.systemCall =
      .ok ({ s with
        memory := writeBytes s.memory (s.registers.get .rsi) (s.input.take (s.registers.get .rdx))
        input := s.input.drop (s.registers.get .rdx) }.returning
          (s.input.take (s.registers.get .rdx)).length) := by
  simp only [State.systemCall, hcall, State.readInput, checkRange_of_le hrange]

theorem Matches.extract_tape (h : Matches base reserved buffer st s) :
    s.memory.extract base (base + st.tape.size) = st.tape := by
  have hsize := h.size
  apply Array.ext
  · simp only [Array.size_extract, hsize]
    omega
  · intro i hi hi'
    have hbyte := h.tape i hi'
    rw [State.byte, Array.getD_eq_getD_getElem?, Array.getElem?_eq_getElem (by omega)] at hbyte
    rw [Array.getElem_extract]
    simpa [hi'] using hbyte

theorem Matches.extract (h : Matches base buffer.length buffer st s) :
    s.memory.extract (s.registers.get .rsp) (s.registers.get .rsp + buffer.length) =
      buffer.toArray := by
  have hstack := h.stack
  have hsize := h.size
  apply Array.ext
  · simp only [Array.size_extract, List.size_toArray, hsize]
    omega
  · intro i hi hi'
    rw [List.size_toArray] at hi'
    have hbyte := h.buffered i hi'
    rw [State.byte, Array.getD_eq_getD_getElem?, Array.getElem?_eq_getElem (by omega)] at hbyte
    rw [Array.getElem_extract]
    simpa [hi'] using hbyte

theorem matches_request {aim : Opcode} {r : Register} {count number : Nat}
    (h : Matches base reserved buffer st s) (descriptor : Nat)
    (haim : aim.exec .rbx .rcx s = .ok
      { s with registers := s.registers.set .rsi (s.registers.get r % 2 ^ 64), pc := s.pc + 1 })
    (haddress : s.registers.get r < 2 ^ 64) (hcount : count < 2 ^ 64) (hnumber : number < 2 ^ 64) :
    ∃ t, execAll .rbx .rcx [aim, .set .rdx count, .set .rdi descriptor, .set .rax number] s = .ok t ∧
      Matches base reserved buffer st t ∧ t.registers.get .rsi = s.registers.get r ∧
      t.registers.get .rdx = count ∧ t.registers.get .rax = number ∧ t.memory = s.memory ∧
      t.registers.get .rsp = s.registers.get .rsp := by
  have h₁ := h.set (by decide : Register.rsi ≠ .rbx) (by decide) (s.registers.get r % 2 ^ 64)
    (s.pc + 1)
  have h₂ := h₁.set (by decide : Register.rdx ≠ .rbx) (by decide) (count % 2 ^ 64) (s.pc + 2)
  have h₃ := h₂.set (by decide : Register.rdi ≠ .rbx) (by decide) (descriptor % 2 ^ 64) (s.pc + 3)
  have h₄ := h₃.set (by decide : Register.rax ≠ .rbx) (by decide) (number % 2 ^ 64) (s.pc + 4)
  refine ⟨_, (execAll_cons_of_ok haim _).trans rfl, h₄, ?_, ?_, ?_, rfl, ?_⟩
  · simp only [Registers.get_set, reduceCtorEq, if_false, if_true, Nat.mod_eq_of_lt haddress]
  · simp only [Registers.get_set, reduceCtorEq, if_false, if_true, Nat.mod_eq_of_lt hcount]
  · simp only [Registers.get_set, if_true, Nat.mod_eq_of_lt hnumber]
  · simp

theorem matches_flush {buffer : List UInt8} (h : Matches base buffer.length buffer st s) :
    ∃ t, execAll .rbx .rcx [.aimStack, .set .rdx buffer.length, .set .rdi 1, .set .rax 1, .call,
        .stack true buffer.length] s = .ok t ∧ Matches base 0 [] st t := by
  have hbound := h.bound
  have hstack := h.stack
  obtain ⟨u, hargs, hu, hrsi, hrdx, hrax, -, hrsp⟩ :=
    matches_request h 1 (show Opcode.aimStack.exec .rbx .rcx s = _ from rfl) (by omega)
      (show buffer.length < 2 ^ 64 by omega) (show 1 < 2 ^ 64 by decide)
  have hsize := hu.size
  have hcall := systemCall_write hrax (by rw [hrsi, hrdx]; omega)
  rw [hrsi, ← hrsp, hrdx, hu.extract] at hcall
  -- behind the call, the stack pointer goes back to the tape
  generalize hv : State.returning _ buffer.length = v at hcall
  have hback : v.adjust .rsp true buffer.length =
      { v with registers := v.registers.set .rsp base, zeroFlag := base == 0, pc := v.pc + 1 } := by
    have hrsp' : v.registers.get .rsp = s.registers.get .rsp := by
      rw [← hv, ← hrsp]
      simp [State.returning, State.advance]
    refine adjust_eq ?_ (by omega)
    rw [if_pos rfl, hrsp']
    omega
  have hstep : Opcode.call.exec .rbx .rcx u = .ok v := hcall
  have hexec : execAll .rbx .rcx [.call, .stack true buffer.length] u = .ok _ :=
    (execAll_cons_of_ok hstep _).trans (congrArg Except.ok hback)
  refine ⟨_, (execAll_append_of_ok hargs _).trans hexec, ?_⟩
  subst hv
  refine ⟨hu.size, hbound, h.onTape, hu.tape, ?_, ?_, by simp, by simp, ?_, hu.input, hu.running,
    hu.plain⟩
  · simpa [State.returning, State.advance] using hu.pointer
  · simp
  · simpa [State.returning, State.advance] using hu.output

theorem matches_reserve {count : Nat} (h : Matches base 0 [] st s) (hroom : count ≤ base) :
    ∃ t, (Opcode.stack false count).exec .rbx .rcx s = .ok t ∧ Matches base count [] st t := by
  have hstack := h.stack
  have hbound := h.bound
  have hreserve : s.adjust .rsp false count =
      { s with
        registers := s.registers.set .rsp (base - count)
        zeroFlag := base - count == 0, pc := s.pc + 1 } := by
    refine adjust_eq ?_ (by omega)
    rw [if_neg Bool.false_ne_true]
    omega
  refine ⟨_, congrArg Except.ok hreserve, h.size, h.bound, h.onTape, h.tape, ?_, ?_, by simp, by simp,
    h.output, h.input, h.running, h.plain⟩
  · simpa using h.pointer
  · simp only [Registers.get_set, if_true]
    omega

/-- Outputs that share a system call, if their buffer has room below the tape. -/
theorem matches_print {gaps : List (List Row)} (h : Matches base 0 [] st s)
    (hroom : gaps.length + 1 ≤ base)
    (hrun : runAll atEnd (Batch.print gaps).commands st = .ok st') :
    ∃ t, execAll .rbx .rcx (Batch.print gaps).code s = .ok t ∧ Matches base 0 [] st' t := by
  obtain ⟨s₁, hfirst, h₁⟩ := matches_reserve h hroom
  obtain ⟨s₂, buffer, hfill, h₂, hlength⟩ :=
    matches_fill h₁ (by simp) (show runAll atEnd (printed ([] :: gaps)) st = .ok st' from hrun)
  have hcount : buffer.length = gaps.length + 1 := by simpa using hlength
  rw [← hcount] at h₂
  obtain ⟨t, hflush, ht⟩ := matches_flush h₂
  refine ⟨t, ?_, ht⟩
  rw [hcount] at hflush
  rw [Batch.code, List.cons_append, execAll_cons_of_ok hfirst]
  exact (execAll_append_of_ok hfill _).trans hflush

theorem getD_writeBytes {memory : Array UInt8} {address : Nat} {bytes : List UInt8}
    (h : address + bytes.length ≤ memory.size) (i : Nat) :
    (writeBytes memory address bytes).getD i 0 =
      if address ≤ i then (bytes[i - address]?).getD (memory.getD i 0) else memory.getD i 0 := by
  simp only [Array.getD_eq_getD_getElem?, getElem?_writeBytes h]
  by_cases hi : address ≤ i ∧ i < address + bytes.length
  · have hlt : i - address < bytes.length := by omega
    rw [if_pos hi, if_pos hi.1, List.getElem?_eq_getElem hlt]
    rfl
  · rw [if_neg hi]
    split
    · rw [List.getElem?_eq_none (by omega)]
      rfl
    · rfl

/-- Reads that share a system call. -/
theorem matches_read {gaps : List Gap} (h : Matches base 0 [] st s)
    (hfed : Fed atEnd gaps st.input)
    (hrun : runAll atEnd (Batch.read gaps).commands st = .ok st') :
    ∃ t, execAll .rbx .rcx (Batch.read gaps).code s = .ok t ∧ Matches base 0 [] st' t := by
  obtain ⟨hpointer, hinput, houtput, htape⟩ := runAll_read h.onTape hfed hrun
  obtain ⟨hon, hsize⟩ := runAll_onTape hrun h.onTape
  have hlast : st.pointer + gaps.length < st.tape.size := by
    rw [← hpointer, ← hsize]
    exact hon
  have hbound := h.bound
  obtain ⟨u, hargs, hu, hrsi, hrdx, hrax, hmemory, -⟩ :=
    matches_request h 0 (show Opcode.aimTape.exec .rbx .rcx s = _ from rfl)
      (by rw [h.pointer]; omega) (show gaps.length + 1 < 2 ^ 64 by omega) (show 0 < 2 ^ 64 by decide)
  have htake : (st.input.take (gaps.length + 1)).length ≤ gaps.length + 1 := by
    rw [List.length_take]
    omega
  have hcall := systemCall_read hrax (by rw [hrsi, hrdx, hu.input, h.pointer, hu.size]; omega)
  rw [hrsi, hrdx, hu.input, h.pointer] at hcall
  -- behind the call, the bytes are on the tape, and the pointer is still at the first of them
  generalize hchunk : st.input.take (gaps.length + 1) = chunk at hcall htape htake
  have hread : Matches base 0 [] { st with tape := st'.tape, input := st'.input }
      ({ u with
        memory := writeBytes u.memory (base + st.pointer) chunk
        input := st.input.drop (gaps.length + 1) }.returning chunk.length) := by
    refine ⟨?_, by rw [hsize]; exact h.bound, ?_, fun i hi => ?_, ?_, ?_, by simp, by simp, ?_,
      hinput.symm, hu.running, hu.plain⟩
    · simp only [State.returning, State.advance, size_writeBytes, hsize]
      exact hu.size
    · show st.pointer < st'.tape.size
      rw [hsize]
      exact h.onTape
    · have hcell := hu.tape i (hsize ▸ hi)
      rw [State.byte] at hcell
      simp only [State.byte, State.returning, State.advance, htape]
      rw [getD_writeBytes (by rw [hu.size]; omega), getD_writeBytes (by omega), hcell]
      simp only [Nat.add_le_add_iff_left, Nat.add_sub_add_left]
    · simpa [State.returning, State.advance] using hu.pointer
    · simpa [State.returning, State.advance] using hu.stack
    · simpa [State.returning, State.advance] using hu.output
  generalize State.returning _ chunk.length = v at hcall hread
  have hstep : Opcode.call.exec .rbx .rcx u = .ok v := hcall
  have hfirst : execAll .rbx .rcx [.aimTape, .set .rdx (gaps.length + 1), .set .rdi 0, .set .rax 0,
      .call] s = .ok v :=
    (execAll_append_of_ok hargs [.call]).trans (execAll_cons_of_ok hstep [])
  have hst' : st' = { st with
      tape := st'.tape, input := st'.input, pointer := st.pointer + gaps.length } := by
    rw [← hpointer, ← houtput]
  rw [Batch.code, execAll_append_of_ok hfirst]
  by_cases hone : gaps.length = 0
  · refine ⟨v, by rw [if_pos hone]; rfl, ?_⟩
    rw [hst', hone]
    exact hread
  · have hmove : v.adjust .rbx true gaps.length =
        { v with
          registers := v.registers.set .rbx (base + (st.pointer + gaps.length))
          zeroFlag := base + (st.pointer + gaps.length) == 0, pc := v.pc + 1 } := by
      refine adjust_eq ?_ (by omega)
      rw [if_pos rfl, hread.pointer]
      simp only
      omega
    have hshift : (Opcode.shift true gaps.length).exec .rbx .rcx v = .ok _ :=
      congrArg Except.ok hmove
    rw [if_neg hone, hst']
    exact ⟨_, execAll_cons_of_ok hshift [], hread.move (by rw [hsize]; exact hlast) _ _⟩

/-! ## Batches -/

/-- A batch that the machine can execute as it is meant: outputs have room for their buffer, and reads
find enough input or do not see its end. -/
def Batch.Fits (base : Nat) (atEnd : Option UInt8) (input : List UInt8) : Batch → Prop
  | row _ => True
  | print gaps => gaps.length + 1 ≤ base
  | read gaps => Fed atEnd gaps input

/-- The instructions of a batch do what its commands do. -/
theorem matches_batch {b : Batch} (h : Matches base 0 [] st s) (hfits : b.Fits base atEnd st.input)
    (hrun : runAll atEnd b.commands st = .ok st') :
    ∃ t, execAll .rbx .rcx b.code s = .ok t ∧ Matches base 0 [] st' t := by
  cases b with
  | row r => exact matches_row h hrun
  | print gaps => exact matches_print h hfits hrun
  | read gaps => exact matches_read h hfits hrun

end Brainfuck
