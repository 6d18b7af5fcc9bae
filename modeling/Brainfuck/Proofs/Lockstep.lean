import Brainfuck.Proofs.Block
import Mathlib.Data.List.Chain

/-!
# Runs side by side

The same instructions at two places of memory, from states that differ in registers which no
instruction looks at before it has been set.

* `Instr.Ready`, `Instr.Feeds` : what an instruction looks at is alike in two states; one instruction
  sets it for the next;
* `Linked` : every instruction is fed by all that lead to it, as in the code of a block
  (`linked_block`);
* `Machine.State.systemCall_agree` : calls that find the same where they look transfer the same bytes;
* `Alike k` : two states, the second `k` instructions further, that agree in all but two registers
  and the flag (`Instr.exec_alike`);
* `steps_abreast`, `abreast_of_halted` : two runs make the same steps as long as the instructions
  last.
-/

namespace Brainfuck

open Machine

/-! ## What instructions look at -/

namespace Instr

/-- What an instruction looks at, apart from what is always alike, is alike in two states. -/
def Ready (s t : State) : Instr → Prop
  | op (.save _) => t.registers.get .rcx % 256 = s.registers.get .rcx % 256
  | op .call => s.registers.get .rax ≤ 1
  | leave _ => t.zeroFlag = s.zeroFlag
  | _ => True

/-- An instruction that looks at nothing that the one before it has to set. -/
def Free : Instr → Prop
  | op (.save _) | op (.set _ _) | op .call | leave _ => False
  | _ => True

/-- An instruction sets what another one looks at. The address, the size, the stream and the number of a
system call are set one after the other. -/
inductive Feeds : Instr → Instr → Prop where
  | free (x : Instr) {y : Instr} (h : y.Free) : Feeds x y
  | cache (slot : Nat) : Feeds (op .load) (op (.save slot))
  | flag (distance : Nat) : Feeds (op .test) (leave distance)
  | stackAddress (size : Nat) : Feeds (op .aimStack) (op (.set .rdx size))
  | tapeAddress (size : Nat) : Feeds (op .aimTape) (op (.set .rdx size))
  | size (size stream : Nat) : Feeds (op (.set .rdx size)) (op (.set .rdi stream))
  | stream (stream value : Nat) : Feeds (op (.set .rdi stream)) (op (.set .rax value))
  | number {value : Nat} (h : value ≤ 1) : Feeds (op (.set .rax value)) (op .call)

theorem Free.ready {instr : Instr} (h : instr.Free) (s t : State) : instr.Ready s t := by
  cases instr with
  | op o => cases o <;> trivial
  | leave distance => exact h.elim
  | back distance => trivial

/-- Only three instructions set something for the next that is not always alike. -/
theorem Feeds.ready_of_ne {x y : Instr} (h : x.Feeds y) (hload : x ≠ op .load) (htest : x ≠ op .test)
    (hset : ∀ value, x ≠ op (.set .rax value)) (s t : State) : y.Ready s t := by
  cases h with
  | free _ h => exact h.ready s t
  | cache slot => exact absurd rfl hload
  | flag distance => exact absurd rfl htest
  | number _ => exact absurd rfl (hset _)
  | stackAddress | tapeAddress | size | stream => trivial

def next (i : Nat) : Instr → List Nat
  | op _ => [i + 1]
  | leave distance => [i + 1, i + distance]
  | back distance => [i - distance]

/-- A jump back does not go beyond the first place. -/
def Inside (i : Nat) : Instr → Prop
  | back distance => distance ≤ i
  | _ => True

theorem Inside.mono {instr : Instr} {i j : Nat} (h : instr.Inside i) (hij : i ≤ j) :
    instr.Inside j := by
  cases instr with
  | back distance => exact Nat.le_trans h hij
  | op o => trivial
  | leave distance => trivial

theorem next_add {instr : Instr} {i : Nat} (h : instr.Inside i) (k : Nat) :
    instr.next (k + i) = (instr.next i).map (k + ·) := by
  cases instr with
  | op o => rfl
  | leave distance => simp [next, Nat.add_assoc]
  | back distance =>
    have : distance ≤ i := h
    simp only [next, List.map_cons, List.map_nil, List.cons.injEq, and_true]
    omega

end Instr

/-- The first instruction looks at nothing special, and every instruction stays among the others, or
comes to their end, and feeds those to which it leads. -/
structure Linked (code : List Instr) : Prop where
  free : ∀ y : Instr, code[0]? = some y → y.Free
  next : ∀ (i : Nat) (x : Instr), code[i]? = some x → x.Inside i ∧
    ∀ j ∈ x.next i, j ≤ code.length ∧ ∀ y, code[j]? = some y → x.Feeds y

theorem linked_nil : Linked [] := ⟨by simp, by simp⟩

theorem Linked.append {xs ys : List Instr} (hx : Linked xs) (hy : Linked ys) :
    Linked (xs ++ ys) := by
  refine ⟨fun y h => ?_, fun i x h => ?_⟩
  · cases xs with
    | nil => exact hy.free y h
    | cons x xs => exact hx.free y h
  · by_cases hi : i < xs.length
    · rw [List.getElem?_append_left hi] at h
      obtain ⟨hinside, hnext⟩ := hx.next i x h
      refine ⟨hinside, fun j hj => ?_⟩
      obtain ⟨hle, hfeeds⟩ := hnext j hj
      refine ⟨by rw [List.length_append]; omega, fun y h' => ?_⟩
      by_cases hlt : j < xs.length
      · exact hfeeds y (by rwa [List.getElem?_append_left hlt] at h')
      · obtain rfl : j = xs.length := by omega
        rw [List.getElem?_append_right (Nat.le_refl _), Nat.sub_self] at h'
        exact .free x (hy.free y h')
    · obtain ⟨i, rfl⟩ := Nat.exists_eq_add_of_le (Nat.le_of_not_lt hi)
      rw [List.getElem?_append_right (Nat.le_add_right _ _), Nat.add_sub_cancel_left] at h
      obtain ⟨hinside, hnext⟩ := hy.next i x h
      refine ⟨hinside.mono (Nat.le_add_left _ _), fun j hj => ?_⟩
      rw [Instr.next_add hinside] at hj
      obtain ⟨j', hj', rfl⟩ := List.mem_map.1 hj
      obtain ⟨hle, hfeeds⟩ := hnext j' hj'
      refine ⟨by rw [List.length_append]; omega, fun y h' => hfeeds y ?_⟩
      rwa [List.getElem?_append_right (Nat.le_add_right _ _), Nat.add_sub_cancel_left] at h'

theorem linked_chain {o : Opcode} {os : List Opcode} (ho : (Instr.op o).Free)
    (h : (o :: os).IsChain fun x y => (Instr.op x).Feeds (.op y)) :
    Linked ((o :: os).map .op) := by
  refine ⟨fun y hy => ?_, fun i x hx => ?_⟩
  · cases hy
    exact ho
  · rw [List.getElem?_map] at hx
    obtain ⟨o', hi, rfl⟩ := Option.map_eq_some_iff.1 hx
    obtain ⟨hlt, hi⟩ := List.getElem?_eq_some_iff.1 hi
    refine ⟨trivial, fun j hj => ?_⟩
    obtain rfl := List.mem_singleton.1 hj
    refine ⟨by rw [List.length_map]; exact hlt, fun y hy => ?_⟩
    rw [List.getElem?_map] at hy
    obtain ⟨o'', hnext, rfl⟩ := Option.map_eq_some_iff.1 hy
    obtain ⟨hlt', hnext⟩ := List.getElem?_eq_some_iff.1 hnext
    rw [← hi, ← hnext]
    exact List.isChain_iff_getElem.1 h i hlt'

theorem Linked.cons {o : Opcode} {rest : List Instr} (ho : (Instr.op o).Free) (h : Linked rest) :
    Linked (.op o :: rest) :=
  (linked_chain ho (.singleton o)).append h

theorem getElem?_loop {body : List Instr} {distance i : Nat} {y : Instr}
    (h : (Instr.op .test :: .leave distance :: body ++ [.back distance])[i + 2]? = some y) :
    body[i]? = some y ∨ (i = body.length ∧ y = .back distance) := by
  have h' : (body ++ [.back distance])[i]? = some y := h
  by_cases hi : i < body.length
  · rw [List.getElem?_append_left hi] at h'
    exact .inl h'
  · have hlt := (List.getElem?_eq_some_iff.1 h').1
    rw [List.length_append, List.length_singleton] at hlt
    obtain rfl : i = body.length := by omega
    rw [List.getElem?_append_right (Nat.le_refl _), Nat.sub_self] at h'
    cases h'
    exact .inr ⟨rfl, rfl⟩

/-- The test at the head of a loop feeds the jump behind it. The jumps lead behind the loop, to the
body and to the test. -/
theorem Linked.loop {body : List Instr} (h : Linked body) : Linked (loopCode body) := by
  unfold loopCode
  split
  · exact linked_nil
  refine ⟨fun y hy => ?_, fun i x hx => ?_⟩
  · cases hy
    trivial
  -- what is fed inside the body is fed at its place in the loop
  have hbody (x : Instr) (j : Nat) (hfeeds : ∀ y, body[j]? = some y → x.Feeds y) :
      ∀ y, (Instr.op .test :: .leave (body.length + 2) :: body ++
        [.back (body.length + 2)])[j + 2]? = some y → x.Feeds y := by
    intro y hy
    rcases getElem?_loop hy with hy | ⟨-, rfl⟩
    · exact hfeeds y hy
    · exact .free x trivial
  match i with
  | 0 =>
    cases hx
    refine ⟨trivial, fun j hj => ?_⟩
    obtain rfl := List.mem_singleton.1 hj
    refine ⟨by simp, fun y hy => ?_⟩
    cases hy
    exact .flag _
  | 1 =>
    cases hx
    refine ⟨trivial, fun j hj => ?_⟩
    simp only [Instr.next, List.mem_cons, List.not_mem_nil, or_false] at hj
    rcases hj with rfl | rfl
    · exact ⟨by simp, hbody _ 0 fun y hy => .free _ (h.free y hy)⟩
    · have hlength : (Instr.op .test :: .leave (body.length + 2) :: body ++
          [Instr.back (body.length + 2)]).length = 1 + (body.length + 2) := by
        simp only [List.cons_append, List.length_cons, List.length_append, List.length_nil]
        omega
      refine ⟨Nat.le_of_eq hlength.symm, fun y hy => ?_⟩
      rw [← hlength, List.getElem?_eq_none (Nat.le_refl _)] at hy
      contradiction
  | i + 2 =>
    rcases getElem?_loop hx with hx | ⟨rfl, rfl⟩
    · obtain ⟨hinside, hnext⟩ := h.next i x hx
      refine ⟨hinside.mono (Nat.le_add_right _ _), fun j hj => ?_⟩
      rw [Nat.add_comm i, Instr.next_add hinside] at hj
      obtain ⟨j', hj', rfl⟩ := List.mem_map.1 hj
      obtain ⟨hle, hfeeds⟩ := hnext j' hj'
      rw [Nat.add_comm 2 j']
      exact ⟨by simp; omega, hbody x j' hfeeds⟩
    · refine ⟨Nat.le_refl _, fun j hj => ?_⟩
      obtain rfl := List.mem_singleton.1 hj
      rw [Nat.sub_self]
      refine ⟨Nat.zero_le _, fun y hy => ?_⟩
      cases hy
      exact .free _ trivial

theorem linked_rows (rows : List Row) : Linked ((rows.flatMap Row.code).map .op) := by
  induction rows with
  | nil => exact linked_nil
  | cons r rows ih =>
    rw [List.flatMap_cons, List.map_append]
    refine .append ?_ ih
    cases r <;>
    · rw [Row.code, adjustment]
      split
      · exact linked_nil
      · exact .cons trivial linked_nil

theorem linked_fill (slot : Nat) (gaps : List (List Row)) : Linked ((fill slot gaps).map .op) := by
  induction gaps generalizing slot with
  | nil => exact linked_nil
  | cons rows gaps ih =>
    rw [fill, List.map_append]
    have hslot : Linked ([Opcode.load, .save slot].map .op) :=
      linked_chain trivial (.cons_cons (.cache slot) (.singleton _))
    exact (linked_rows rows).append (hslot.append (ih (slot + 1)))

theorem linked_batch (b : Batch) : Linked (b.code.map .op) := by
  cases b with
  | row r =>
    have := linked_rows [r]
    rwa [List.flatMap_singleton] at this
  | print gaps =>
    rw [Batch.code, List.map_append]
    refine .append (.cons trivial (linked_fill 0 _)) (linked_chain trivial ?_)
    exact .cons_cons (.stackAddress _) (.cons_cons (.size _ _) (.cons_cons (.stream _ _)
      (.cons_cons (.number (Nat.le_refl 1)) (.cons_cons (.free _ trivial) (.singleton _)))))
  | read gaps =>
    rw [Batch.code, List.map_append]
    refine .append (linked_chain trivial ?_) ?_
    · exact .cons_cons (.tapeAddress _) (.cons_cons (.size _ _) (.cons_cons (.stream _ _)
        (.cons_cons (.number (Nat.zero_le 1)) (.singleton _))))
    · split
      · exact linked_nil
      · exact .cons trivial linked_nil

theorem linked_block (b : Block) : Linked b.code := by
  induction b with
  | done => exact linked_nil
  | batch b rest ih => exact (linked_batch b).append ih
  | loop body rest ihb ih => exact ihb.loop.append ih

/-! ## States that are alike -/

/-- Two states of machines whose instructions lie `k` places apart. They agree in all but the flag and
the registers that a system call or its preparation overwrites. -/
structure Alike (k : Nat) (s t : State) : Prop where
  pc : t.pc = s.pc + k
  registers : ∀ r, r ≠ .rcx → r ≠ .rdi → t.registers.get r = s.registers.get r
  memory : t.memory = s.memory
  output : t.output = s.output
  input : t.input = s.input
  running : s.exitStatus = none ∧ t.exitStatus = none
  plain : s.registers.furtherName = none ∧ t.registers.furtherName = none

/-- Two results are both states in a relation or both failures. -/
inductive Together {ε : Type} (R : State → State → Prop) :
    Except ε State → Except ε State → Prop where
  | ok {s t : State} (h : R s t) : Together R (.ok s) (.ok t)
  | error (e f : ε) : Together R (.error e) (.error f)

theorem Together.ok_left {ε : Type} {R : State → State → Prop} {s : State} {y : Except ε State}
    (h : Together R (.ok s) y) : ∃ t, y = .ok t ∧ R s t := by
  cases h with
  | ok h => exact ⟨_, rfl, h⟩

theorem Together.ok_right {ε : Type} {R : State → State → Prop} {t : State} {x : Except ε State}
    (h : Together R x (.ok t)) : ∃ s, x = .ok s ∧ R s t := by
  cases h with
  | ok h => exact ⟨_, rfl, h⟩

theorem Together.error_left {ε : Type} {R : State → State → Prop} {e : ε} {y : Except ε State}
    (h : Together R (.error e) y) : ∃ f, y = .error f := by
  cases h with
  | error _ f => exact ⟨f, rfl⟩

theorem Together.of_agree {ε : Type} {R : State → State → Prop} {x y : Except (ε × State) State}
    (h : System.Agree R x y) : Together R x y := by
  cases h with
  | ok h => exact .ok h
  | error e s t => exact .error _ _

/-- Calls that read or write and find the same in the registers they look at transfer the same bytes, or
fail at the same address. -/
theorem Machine.State.systemCall_agree {s t : State} (hcall : s.registers.get .rax ≤ 1)
    (hrax : t.registers.get .rax = s.registers.get .rax)
    (hrsi : t.registers.get .rsi = s.registers.get .rsi)
    (hrdx : t.registers.get .rdx = s.registers.get .rdx) (hmemory : t.memory = s.memory)
    (hinput : t.input = s.input) (houtput : t.output = s.output) :
    System.Agree (fun s' t' => ∃ memory input output result,
        s' = { s with memory := memory, input := input, output := output }.returning result ∧
        t' = { t with memory := memory, input := input, output := output }.returning result)
      s.systemCall t.systemCall := by
  have hrange : t.checkRange = s.checkRange := by
    funext address length
    rw [State.checkRange, State.checkRange, hmemory]
  obtain hzero | hone : s.registers.get .rax = 0 ∨ s.registers.get .rax = 1 := by omega
  · rw [State.systemCall, State.systemCall, hrax, hzero]
    simp only [State.readInput, hrsi, hrdx, hinput, hrange]
    cases s.checkRange (s.registers.get .rsi) (s.input.take (s.registers.get .rdx)).length with
    | error f => exact .error _ _ _
    | ok address =>
      refine .ok ⟨_, _, s.output, _, rfl, ?_⟩
      rw [hmemory, houtput]
  · rw [State.systemCall, State.systemCall, hrax, hone]
    simp only [State.writeOutput, hrsi, hrdx, hrange]
    cases s.checkRange (s.registers.get .rsi) (s.registers.get .rdx) with
    | error f => exact .error _ _ _
    | ok address =>
      refine .ok ⟨s.memory, s.input, _, _, rfl, ?_⟩
      rw [hmemory, hinput, houtput]

namespace Alike

variable {k : Nat} {s t s' t' : State}

theorem byte (h : Alike k s t) (address : Nat) : t.byte address = s.byte address := by
  rw [State.byte, h.memory, State.byte]

theorem set_registers (h : Alike k s t) (r : Register) (value : Nat) (r' : Register) (hc : r' ≠ .rcx)
    (hd : r' ≠ .rdi) :
    (t.registers.set r value).get r' = (s.registers.set r value).get r' := by
  rw [Registers.get_set, Registers.get_set, h.registers r' hc hd]

theorem within (h : Alike k s t) {R : State → State → Prop} {address : Nat}
    (hnext : R s' t') : Together R (s.within address s') (t.within address t') := by
  rw [State.within, State.within, h.memory]
  split
  · exact .ok hnext
  · exact .error _ _

theorem adjust (h : Alike k s t) {r : Register} (hc : r ≠ .rcx) (hd : r ≠ .rdi) (up : Bool)
    (amount : Nat) : Alike k (s.adjust r up amount) (t.adjust r up amount) := by
  refine ⟨?_, fun r' hc' hd' => ?_, h.memory, h.output, h.input, h.running, h.plain⟩
  · simp only [State.adjust, h.pc]
    omega
  · simp only [State.adjust, h.registers r hc hd]
    exact h.set_registers r _ r' hc' hd'

theorem goto (h : Alike k s t) {a b : Nat} (hab : b = a + k) :
    Alike k { s with pc := a } { t with pc := b } :=
  ⟨hab, h.registers, h.memory, h.output, h.input, h.running, h.plain⟩

theorem set (h : Alike k s t) (r : Register) (value : Nat) :
    Alike k { s with registers := s.registers.set r value, pc := s.pc + 1 }
      { t with registers := t.registers.set r value, pc := t.pc + 1 } :=
  ⟨by simp only [h.pc]; omega, h.set_registers r value, h.memory, h.output, h.input, h.running, h.plain⟩

theorem write (h : Alike k s t) (address : Nat) (value : UInt8) (zs zt : Bool) :
    Alike k
      { s with memory := s.memory.setIfInBounds address value, zeroFlag := zs, pc := s.pc + 1 }
      { t with memory := t.memory.setIfInBounds address value, zeroFlag := zt, pc := t.pc + 1 } :=
  ⟨by simp only [h.pc]; omega, h.registers, by simp only [h.memory], h.output, h.input, h.running,
    h.plain⟩

theorem returning (h : Alike k s t) (result : Nat) :
    Alike k (s.returning result) (t.returning result) := by
  refine ⟨?_, fun r hc hd => ?_, h.memory, h.output, h.input, h.running, h.plain⟩
  · simp only [State.returning, State.advance, h.pc]
    omega
  · simp only [State.returning, State.advance, Registers.get_set, if_neg hc.symm, h.registers r hc hd]

theorem systemCall (h : Alike k s t) (hready : s.registers.get .rax ≤ 1) :
    Together (fun s' t' => Alike k s' t' ∧ s'.pc = s.pc + 1) s.systemCall t.systemCall := by
  have hcall := State.systemCall_agree hready (h.registers .rax (by decide) (by decide))
    (h.registers .rsi (by decide) (by decide)) (h.registers .rdx (by decide) (by decide)) h.memory
    h.input h.output
  refine .of_agree (hcall.imp ?_)
  rintro _ _ ⟨memory, input, output, result, rfl, rfl⟩
  refine ⟨Alike.returning ?_ _, rfl⟩
  exact ⟨h.pc, h.registers, rfl, rfl, rfl, h.running, h.plain⟩

end Alike

variable {k : Nat} {s t : State}

/-- What an instruction makes of states that are alike: they still are, it has led somewhere, and
the instructions that it feeds are ready. -/
def Instr.Follows (k : Nat) (s : State) (instr : Instr) (s' t' : State) : Prop :=
  Alike k s' t' ∧ s'.pc ∈ instr.next s.pc ∧ ∀ y, instr.Feeds y → y.Ready s' t'

theorem Alike.follows {instr : Instr} {s' t' : State} (h : Alike k s' t')
    (hpc : s'.pc ∈ instr.next s.pc) (hidle : ∀ y, instr.Feeds y → y.Ready s' t') :
    instr.Follows k s s' t' :=
  ⟨h, hpc, hidle⟩

theorem Opcode.exec_alike {o : Opcode} (h : Alike k s t) (hready : (Instr.op o).Ready s t) :
    Together ((Instr.op o).Follows k s) (o.exec .rbx .rcx s) (o.exec .rbx .rcx t) := by
  have hbx := h.registers .rbx (by decide) (by decide)
  have hsp := h.registers .rsp (by decide) (by decide)
  have hpc : t.pc + 1 = s.pc + 1 + k := by rw [h.pc, Nat.add_right_comm]
  have hnext : s.pc + 1 ∈ (Instr.op o).next s.pc := List.mem_singleton.2 rfl
  cases o <;> simp only [exec, hbx, hsp, h.byte]
  case stack | shift =>
    exact .ok ((h.adjust (by decide) (by decide) _ _).follows hnext
      fun y hy => hy.ready_of_ne (by simp) (by simp) (by simp) _ _)
  case change =>
    exact h.within ((h.write _ _ _ _).follows hnext
      fun y hy => hy.ready_of_ne (by simp) (by simp) (by simp) _ _)
  case aimStack | aimTape =>
    exact .ok ((h.set _ _).follows hnext fun y hy => hy.ready_of_ne (by simp) (by simp) (by simp) _ _)
  case load =>
    -- the high bytes of the cache may differ, the low byte is the cell
    refine h.within ⟨⟨hpc, fun r hc hd => ?_, h.memory, h.output, h.input, h.running, h.plain⟩,
      hnext, fun y hy => ?_⟩
    · simp only [Registers.get_set, if_neg hc.symm, h.registers r hc hd]
    · cases hy with
      | free _ hfree => exact hfree.ready _ _
      | cache slot =>
        simp only [Instr.Ready, Registers.get_set, if_true]
        omega
  case save slot =>
    have hsame : UInt8.ofNat (t.registers.get .rcx) = UInt8.ofNat (s.registers.get .rcx) := by
      rw [← UInt8.toNat_inj, UInt8.toNat_ofNat', UInt8.toNat_ofNat']
      exact hready
    rw [hsame]
    exact h.within ((h.write _ _ _ _).follows hnext
      fun y hy => hy.ready_of_ne (by simp) (by simp) (by simp) _ _)
  case set r value =>
    refine .ok ⟨h.set _ _, hnext, fun y hy => ?_⟩
    cases hy with
    | free _ hfree => exact hfree.ready _ _
    | size | stream => trivial
    | number hvalue =>
      simp only [Instr.Ready, Registers.get_set, if_true]
      omega
  case call =>
    have hcall := h.systemCall hready
    cases hs : s.systemCall with
    | error e =>
      rw [hs] at hcall
      obtain ⟨f, ht⟩ := hcall.error_left
      rw [ht]
      exact .error _ _
    | ok s' =>
      rw [hs] at hcall
      obtain ⟨t', ht, hcall⟩ := hcall.ok_left
      rw [ht]
      exact .ok (hcall.1.follows (hcall.2 ▸ hnext)
        fun y hy => hy.ready_of_ne (by simp) (by simp) (by simp) _ _)
  case test =>
    refine h.within ⟨⟨hpc, h.registers, h.memory, h.output, h.input, h.running, h.plain⟩,
      hnext, fun y hy => ?_⟩
    cases hy with
    | free _ hfree => exact hfree.ready _ _
    | flag distance => rfl

theorem Instr.exec_alike {instr : Instr} (h : Alike k s t) (hready : instr.Ready s t)
    (hinside : instr.Inside s.pc) :
    Together (instr.Follows k s) (instr.exec .rbx .rcx s) (instr.exec .rbx .rcx t) := by
  cases instr with
  | op o => exact Opcode.exec_alike h hready
  | leave distance =>
    have hflag : t.zeroFlag = s.zeroFlag := hready
    rw [exec, exec]
    by_cases hzero : s.zeroFlag = true
    · rw [if_pos hzero, if_pos (hflag.trans hzero)]
      refine .ok (Alike.follows (h.goto ?_) (by simp [next])
        fun y hy => hy.ready_of_ne (by simp) (by simp) (by simp) _ _)
      rw [h.pc, Nat.add_right_comm]
    · rw [if_neg hzero, if_neg (by rwa [hflag])]
      refine .ok (Alike.follows (h.goto ?_) (by simp [next, State.advance])
        fun y hy => hy.ready_of_ne (by simp) (by simp) (by simp) _ _)
      rw [h.pc, Nat.add_right_comm]
  | back distance =>
    have hle : distance ≤ s.pc := hinside
    refine .ok (Alike.follows (h.goto ?_) (by simp [next])
      fun y hy => hy.ready_of_ne (by simp) (by simp) (by simp) _ _)
    rw [h.pc, Nat.sub_add_comm hle]

/-! ## Runs -/

/-- Two machines that are about to execute the same instruction, or have come to the end of the
instructions, in states that are alike as far as the instruction can see. -/
structure Abreast (instrs : List Instr) (k : Nat) (s t : State) : Prop where
  alike : Alike k s t
  inside : s.pc ≤ instrs.length
  ready : ∀ instr : Instr, instrs[s.pc]? = some instr → instr.Ready s t

section

variable {instrs : List Instr} {code code' : Machine.Code}

theorem Alike.abreast (h : Alike k s t) (hlinked : Linked instrs) (hpc : s.pc = 0) :
    Abreast instrs k s t :=
  ⟨h, by omega, fun instr hi => (hlinked.free instr (by rwa [hpc] at hi)).ready s t⟩

/-- Two machines side by side make a step, or fail, together. -/
theorem Abreast.step (hcode : Holds code .rbx .rcx 0 instrs) (hcode' : Holds code' .rbx .rcx k instrs)
    (hlinked : Linked instrs) (h : Abreast instrs k s t) (hlt : s.pc < instrs.length) :
    ((system code).halted s = false ∧ (system code').halted t = false) ∧
      Together (Abreast instrs k) ((system code).step s) ((system code').step t) := by
  obtain ⟨instr, hinstr⟩ : ∃ instr, instrs[s.pc]? = some instr := ⟨_, List.getElem?_eq_getElem hlt⟩
  have hdoes : Does code .rbx .rcx s.pc instr := by simpa using hcode.get hinstr
  have hdoes' : Does code' .rbx .rcx (k + s.pc) instr := hcode'.get hinstr
  have hpc' : t.pc = k + s.pc := by rw [h.alike.pc, Nat.add_comm]
  obtain ⟨hinside, hnext⟩ := hlinked.next s.pc instr hinstr
  refine ⟨⟨hdoes.running rfl h.alike.running.1, hdoes'.running hpc' h.alike.running.2⟩, ?_⟩
  have htogether := Instr.exec_alike h.alike (h.ready instr hinstr) hinside
  cases hs : instr.exec .rbx .rcx s with
  | error e =>
    rw [hs] at htogether
    obtain ⟨e', ht⟩ := htogether.error_left
    obtain ⟨line, hstep⟩ := hdoes.fail rfl hs
    obtain ⟨line', hstep'⟩ := hdoes'.fail hpc' ht
    rw [hstep, hstep']
    exact .error _ _
  | ok s' =>
    rw [hs] at htogether
    obtain ⟨t', ht, halike, hmem, hfeeds⟩ := htogether.ok_left
    obtain ⟨hle, hready⟩ := hnext s'.pc hmem
    rw [hdoes.step rfl hs, hdoes'.step hpc' ht]
    exact .ok ⟨halike, hle, fun y hy => hfeeds y (hready y hy)⟩

theorem steps_abreast (hcode : Holds code .rbx .rcx 0 instrs) (hsize : code.size = instrs.length)
    (hcode' : Holds code' .rbx .rcx k instrs) (hlinked : Linked instrs) {n : Nat} {s' : State}
    (h : Abreast instrs k s t) (hsteps : (system code).Steps n s s') :
    ∃ t', (system code').Steps n t t' ∧ Abreast instrs k s' t' := by
  induction hsteps generalizing t with
  | refl s => exact ⟨t, .refl t, h⟩
  | @step n s s₁ s' running ok _ ih =>
    have hlt : s.pc < instrs.length := by
      rw [← hsize]
      simpa [system, h.alike.running.1] using running
    obtain ⟨⟨-, running'⟩, htogether⟩ := h.step hcode hcode' hlinked hlt
    rw [ok] at htogether
    obtain ⟨t₁, hstep, h₁⟩ := htogether.ok_left
    obtain ⟨t', hsteps', h'⟩ := ih h₁
    exact ⟨t', .step running' hstep hsteps', h'⟩

/-- If the second machine halts at last, the first comes to the end of the instructions, and the
second with it. -/
theorem abreast_of_halted (hcode : Holds code .rbx .rcx 0 instrs)
    (hcode' : Holds code' .rbx .rcx k instrs) (hlinked : Linked instrs) {n : Nat} {u : State}
    (h : Abreast instrs k s t) (hsteps : (system code').Steps n t u)
    (hhalted : (system code').halted u = true) :
    ∃ m s' t', (system code).Steps m s s' ∧ (system code').Steps m t t' ∧
      Abreast instrs k s' t' ∧ s'.pc = instrs.length := by
  induction hsteps generalizing s with
  | refl t =>
    by_cases hlt : s.pc < instrs.length
    · obtain ⟨⟨-, running⟩, -⟩ := h.step hcode hcode' hlinked hlt
      rw [hhalted] at running
      contradiction
    · exact ⟨0, s, t, .refl s, .refl t, h, Nat.le_antisymm h.inside (Nat.le_of_not_lt hlt)⟩
  | @step n t t₁ u running' ok' _ ih =>
    by_cases hlt : s.pc < instrs.length
    · obtain ⟨⟨running, -⟩, htogether⟩ := h.step hcode hcode' hlinked hlt
      rw [ok'] at htogether
      obtain ⟨s₁, hstep, h₁⟩ := htogether.ok_right
      obtain ⟨m, s', t', hsteps, hsteps', h', hpc⟩ := ih h₁ hhalted
      exact ⟨m + 1, s', t', .step running hstep hsteps, .step running' ok' hsteps', h', hpc⟩
    · exact ⟨0, s, t, .refl s, .refl t, h, Nat.le_antisymm h.inside (Nat.le_of_not_lt hlt)⟩

end

end Brainfuck
