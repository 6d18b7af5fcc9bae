import Brainfuck.Proofs.Matching

/-!
# What batches leave alone

The instructions of a batch write on the tape and in the buffer of their outputs. What lies in front of
the buffer is never written.

* `Untouched floor s` : the bytes in front of an address are zero;
* `Opcode.Above` : an instruction does not write in front of an address, so that what lies there is kept
  (`Opcode.Above.untouched`);
* `Spares floor os s` : instructions one after the other, none of which writes there
  (`spares_append`, `through_of_execAll`);
* `spares_rows`, `spares_fill`, `spares_flush` : rows and what is done with the output buffer;
* `spares_print`, `spares_read` : batches, if outputs have room for their buffer behind the address.
-/

namespace Brainfuck

open Machine Codegen

variable {floor base reserved room : Nat} {buffer : List UInt8} {atEnd : Option UInt8} {st st' : Store}
  {s t : State}

/-! ## Instructions -/

/-- The bytes in front of an address are zero. -/
def Untouched (floor : Nat) (s : State) : Prop := ∀ i < floor, s.memory[i]? = some 0

theorem untouched_zero (s : State) : Untouched 0 s := nofun

theorem Untouched.of_memory (h : Untouched floor s) (hmemory : t.memory = s.memory) : Untouched floor t := by
  intro i hi
  rw [hmemory]
  exact h i hi

/-- An instruction does not write in front of an address. -/
def Opcode.Above (floor : Nat) (s : State) : Opcode → Prop
  | change _ _ => floor ≤ s.registers.get .rbx
  | save slot => floor ≤ s.registers.get .rsp + slot
  | call => s.registers.get .rax = 0 → floor ≤ s.registers.get .rsi
  | _ => True

theorem getElem?_writeBytes_of_lt (memory : Array UInt8) {i address : Nat} (h : i < address)
    (bytes : List UInt8) : (writeBytes memory address bytes)[i]? = memory[i]? := by
  induction bytes generalizing memory address with
  | nil => rfl
  | cons byte bytes ih =>
    rw [writeBytes, ih _ (Nat.lt_succ_of_lt h), Array.getElem?_setIfInBounds_ne (by omega)]

theorem Machine.State.checkRange_ok {address length found : Nat}
    (h : s.checkRange address length = .ok found) : found = address := by
  unfold State.checkRange at h
  split at h
  · contradiction
  · cases h
    exact Int.toNat_natCast address

/-- A system call writes from the address on that it is given, and only if it reads. -/
theorem Machine.State.getElem?_systemCall (h : s.systemCall = .ok t) {i : Nat}
    (hi : s.registers.get .rax = 0 → i < s.registers.get .rsi) : t.memory[i]? = s.memory[i]? := by
  unfold State.systemCall at h
  split at h
  · rename_i hread
    have hlt := hi hread
    simp only [State.readInput] at h
    split at h
    · contradiction
    · rename_i address haddress
      obtain rfl := State.checkRange_ok haddress
      cases h
      exact getElem?_writeBytes_of_lt _ hlt _
  · simp only [State.writeOutput] at h
    split at h
    · contradiction
    · cases h
      rfl
  · cases h
    rfl
  · contradiction

theorem Opcode.Above.untouched {o : Opcode} (h : o.Above floor s) (hexec : o.exec .rbx .rcx s = .ok t)
    (hs : Untouched floor s) : Untouched floor t := by
  intro i hi
  rw [← hs i hi]
  cases o with
  | change up amount =>
    have hle : floor ≤ s.registers.get .rbx := h
    simp only [exec] at hexec
    obtain ⟨-, rfl⟩ := State.of_within hexec
    exact Array.getElem?_setIfInBounds_ne (by omega)
  | save slot =>
    have hle : floor ≤ s.registers.get .rsp + slot := h
    simp only [exec] at hexec
    obtain ⟨-, rfl⟩ := State.of_within hexec
    exact Array.getElem?_setIfInBounds_ne (by omega)
  | call => exact State.getElem?_systemCall hexec fun hread => Nat.lt_of_lt_of_le hi (h hread)
  | load | test =>
    simp only [exec] at hexec
    obtain ⟨-, rfl⟩ := State.of_within hexec
    rfl
  | _ =>
    cases hexec
    rfl

/-! ## Instructions one after the other -/

/-- Instructions one after the other, none of which writes in front of an address. -/
def Spares (floor : Nat) : List Opcode → State → Prop
  | [], _ => True
  | o :: os, s => o.Above floor s ∧ ∀ t, o.exec .rbx .rcx s = .ok t → Spares floor os t

theorem spares_append {xs ys : List Opcode} (h : Spares floor xs s)
    (hexec : execAll .rbx .rcx xs s = .ok t) (h' : Spares floor ys t) : Spares floor (xs ++ ys) s := by
  induction xs generalizing s with
  | nil =>
    cases hexec
    exact h'
  | cons o xs ih =>
    refine ⟨h.1, fun u hu => ?_⟩
    rw [execAll_cons_of_ok hu] at hexec
    exact ih (h.2 u hu) hexec

theorem spares_of_above {os : List Opcode} (h : ∀ o ∈ os, ∀ s, o.Above floor s) : Spares floor os s := by
  induction os generalizing s with
  | nil => trivial
  | cons o os ih =>
    rw [List.forall_mem_cons] at h
    exact ⟨h.1 s, fun _ _ => ih h.2⟩

/-- The machine follows such instructions through states in which the bytes are still zero. -/
theorem through_of_execAll {code : Machine.Code} {os : List Opcode} {a : Nat}
    (hcode : Holds code .rbx .rcx a (os.map .op)) (hpc : s.pc = a)
    (ok : execAll .rbx .rcx os s = .ok t) (hexit : t.exitStatus = none) (hspares : Spares floor os s)
    (hs : Untouched floor s) : (system code).Through (Untouched floor) os.length s t := by
  induction os generalizing a s with
  | nil =>
    cases ok
    exact .refl hs
  | cons o os ih =>
    obtain ⟨u, ho, hrest⟩ := execAll_cons_ok ok
    obtain ⟨hpc', -, hexit'⟩ := Opcode.exec_frame ho
    have hrunning : s.exitStatus = none := hexit' ((execAll_frame hrest).2.2 hexit)
    exact .step hs (hcode.1.running hpc hrunning) (hcode.1.step hpc ho)
      (ih hcode.2 (by rw [hpc', hpc]) hrest (hspares.2 u ho) (hspares.1.untouched ho hs))

/-! ## Batches -/

theorem spares_row (h : Matches base reserved buffer st s) (hfloor : floor ≤ base) (r : Row) :
    Spares floor r.code s := by
  have hpointer := h.pointer
  cases r with
  | change ups =>
    rw [Row.code, adjustment]
    split
    · trivial
    · refine ⟨?_, fun _ _ => trivial⟩
      show floor ≤ s.registers.get .rbx
      omega
  | shift ups =>
    rw [Row.code, adjustment]
    split
    · trivial
    · exact ⟨trivial, fun _ _ => trivial⟩

theorem spares_rows {rows : List Row} (h : Matches base reserved buffer st s) (hfloor : floor ≤ base)
    (hrun : runAll atEnd (rows.flatMap Row.commands) st = .ok st') :
    Spares floor (rows.flatMap Row.code) s := by
  induction rows generalizing st s with
  | nil => trivial
  | cons r rows ih =>
    obtain ⟨st₁, hfirst, hrest⟩ := runAll_append_inv hrun
    obtain ⟨s₁, hexec, h₁⟩ := matches_row h hfirst
    exact spares_append (spares_row h hfloor r) hexec (ih h₁ hrest)

theorem spares_fill {gaps : List (List Row)} (h : Matches base reserved buffer st s)
    (hfloor : floor + reserved ≤ base) (hroom : buffer.length + gaps.length ≤ reserved)
    (hrun : runAll atEnd (printed gaps) st = .ok st') : Spares floor (fill buffer.length gaps) s := by
  induction gaps generalizing buffer st s with
  | nil => trivial
  | cons rows gaps ih =>
    have hprinted : printed (rows :: gaps) = rows.flatMap Row.commands ++ .output :: printed gaps := by
      simp [printed]
    rw [List.length_cons] at hroom
    rw [hprinted] at hrun
    obtain ⟨st₁, hrows, hrest⟩ := runAll_append_inv hrun
    rw [runAll_output_cons] at hrest
    obtain ⟨s₁, hexec₁, h₁⟩ := matches_rows h hrows
    obtain ⟨s₂, hexec₂, h₂⟩ := matches_slot h₁ (by omega)
    have hslot : Spares floor [.load, .save buffer.length] s₁ := by
      refine ⟨trivial, fun u hu => ⟨?_, fun _ _ => trivial⟩⟩
      have hstack : u.registers.get .rsp = s₁.registers.get .rsp := by
        simp only [Opcode.exec] at hu
        obtain ⟨-, rfl⟩ := State.of_within hu
        simp
      have := h₁.stack
      show floor ≤ u.registers.get .rsp + buffer.length
      omega
    have hlength : (buffer ++ [st₁.current]).length = buffer.length + 1 := by simp
    have hothers := ih h₂ (by omega) hrest
    rw [hlength] at hothers
    exact spares_append (spares_rows h (by omega) hrows) hexec₁ (spares_append hslot hexec₂ hothers)

theorem spares_flush {count : Nat} (h : Matches base reserved buffer st s) (hcount : count < 2 ^ 64) :
    Spares floor [.aimStack, .set .rdx count, .set .rdi 1, .set .rax 1, .call, .stack true count] s := by
  have hbound := h.bound
  have hstack := h.stack
  obtain ⟨u, hargs, -, -, -, hrax, -⟩ :=
    matches_request h 1 (show Opcode.aimStack.exec .rbx .rcx s = _ from rfl) (by omega) hcount
      (show 1 < 2 ^ 64 by decide)
  refine spares_append (spares_of_above ?_) hargs ⟨fun hread => ?_, fun _ _ => ⟨trivial, fun _ _ => trivial⟩⟩
  · simp [Opcode.Above]
  · rw [hrax] at hread
    contradiction

theorem spares_print {gaps : List (List Row)} (h : Matches base 0 [] st s) (hroom : gaps.length + 1 ≤ room)
    (hfloor : floor + room ≤ base) (hrun : runAll atEnd (Batch.print gaps).commands st = .ok st') :
    Spares floor (Batch.print gaps).code s := by
  have hbound := h.bound
  obtain ⟨s₁, hfirst, h₁⟩ := matches_reserve h (show gaps.length + 1 ≤ base by omega)
  have hprinted : runAll atEnd (printed ([] :: gaps)) st = .ok st' := hrun
  obtain ⟨s₂, buffer, hfill, h₂, -⟩ := matches_fill h₁ (by simp) hprinted
  refine ⟨trivial, fun u hu => ?_⟩
  obtain rfl : s₁ = u := Except.ok.inj (hfirst.symm.trans hu)
  exact spares_append (spares_fill h₁ (by omega) (by simp) hprinted) hfill (spares_flush h₂ (by omega))

theorem spares_read {gaps : List Gap} (h : Matches base 0 [] st s) (hfloor : floor ≤ base)
    (hfed : Fed atEnd gaps st.input) (hrun : runAll atEnd (Batch.read gaps).commands st = .ok st') :
    Spares floor (Batch.read gaps).code s := by
  have hbound := h.bound
  have hpointer := h.pointer
  have hlast : st.pointer + gaps.length < st.tape.size := by
    obtain ⟨hon, hsize⟩ := runAll_onTape hrun h.onTape
    rw [← (runAll_read h.onTape hfed hrun).1, ← hsize]
    exact hon
  obtain ⟨u, hargs, -, hrsi, -⟩ :=
    matches_request h 0 (show Opcode.aimTape.exec .rbx .rcx s = _ from rfl) (by omega)
      (show gaps.length + 1 < 2 ^ 64 by omega) (show 0 < 2 ^ 64 by decide)
  have hcode : (Batch.read gaps).code =
      [.aimTape, .set .rdx (gaps.length + 1), .set .rdi 0, .set .rax 0] ++
        .call :: if gaps.length = 0 then [] else [.shift true gaps.length] := rfl
  rw [hcode]
  refine spares_append (spares_of_above ?_) hargs ⟨fun _ => ?_, fun _ _ => spares_of_above ?_⟩
  · simp [Opcode.Above]
  · omega
  · split <;> simp [Opcode.Above]

end Brainfuck
