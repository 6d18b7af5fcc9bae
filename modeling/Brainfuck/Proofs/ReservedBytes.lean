import Brainfuck.Proofs.Lockstep

/-!
# What code reserves on the stack

The outputs of a run reserve their buffer below the stack pointer and give it back.

* `Opcode.reserves`, `Instr.reserves` : how far an instruction lowers the stack pointer;
* `reserved code i` : how far the instructions in front of place `i` lower it (`reserved_add`,
  `reserved_append_left`, `reserved_append_right`);
* `Disciplined` : jumps lead to places where as much is reserved, buffers are not nested, and in the end
  nothing is reserved (`Disciplined.append`, `Disciplined.loop`);
* `reserved_print` : what is reserved inside a run of outputs;
* `disciplined_block` : the code of a block is disciplined.
-/

namespace Brainfuck

open Machine Codegen

/-! ## Reserved bytes -/

/-- The bytes by which an instruction lowers the stack pointer. -/
def Opcode.reserves : Opcode → Int
  | stack up amount => if up then -amount else amount
  | _ => 0

def Instr.reserves : Instr → Int
  | op o => o.reserves
  | leave _ | back _ => 0

/-- The bytes that the instructions in front of a place reserve, one after the other. -/
def reserved (code : List Instr) (i : Nat) : Int := ((code.map Instr.reserves).take i).sum

theorem reserved_zero (code : List Instr) : reserved code 0 = 0 := rfl

theorem reserved_succ {code : List Instr} {i : Nat} {x : Instr} (h : code[i]? = some x) :
    reserved code (i + 1) = reserved code i + x.reserves := by
  simp [reserved, List.take_add_one, h]

theorem reserved_add (code : List Instr) (i j : Nat) :
    reserved code (i + j) = reserved code i + reserved (code.drop i) j := by
  rw [reserved, List.take_add, List.sum_append, ← List.map_drop, reserved, reserved]

theorem reserved_append_left {xs : List Instr} {i : Nat} (h : i ≤ xs.length) (ys : List Instr) :
    reserved (xs ++ ys) i = reserved xs i := by
  rw [reserved, List.map_append, List.take_append_of_le_length (by simpa using h), reserved]

theorem reserved_append_right (xs ys : List Instr) (i : Nat) :
    reserved (xs ++ ys) (xs.length + i) = reserved xs xs.length + reserved ys i := by
  rw [reserved_add, reserved_append_left (Nat.le_refl _), List.drop_left]

theorem reserved_cons_succ (x : Instr) (xs : List Instr) (i : Nat) :
    reserved (x :: xs) (i + 1) = x.reserves + reserved xs i := by
  simp [reserved]

/-- An instruction that leaves the stack pointer alone. -/
def Opcode.Idle : Opcode → Prop
  | stack _ _ => False
  | set r _ => r ≠ .rsp
  | _ => True

theorem Opcode.Idle.reserves {o : Opcode} (h : o.Idle) : o.reserves = 0 := by
  cases o with
  | stack => contradiction
  | _ => rfl

theorem reserved_of_idle {os : List Opcode} (h : ∀ o ∈ os, o.Idle) (i : Nat) :
    reserved (os.map .op) i = 0 := by
  induction os generalizing i with
  | nil => simp [reserved]
  | cons o os ih =>
    obtain ⟨ho, hos⟩ := List.forall_mem_cons.1 h
    cases i with
    | zero => rfl
    | succ i =>
      rw [List.map_cons, reserved_cons_succ, ih hos, Int.add_zero]
      exact ho.reserves

/-! ## Code that gives back what it reserves -/

/-- Only the instructions that reserve and give back touch the stack pointer, each instruction leads to
places where the sum of what is reserved fits, nothing is reserved where a buffer is begun, and nothing
in the end. -/
structure Disciplined (code : List Instr) : Prop where
  plain : ∀ value, .op (.set .rsp value) ∉ code
  level : ∀ (i : Nat) (x : Instr), code[i]? = some x →
    ∀ j ∈ x.next i, reserved code j = reserved code i + x.reserves
  fresh : ∀ (i : Nat) (x : Instr), code[i]? = some x → 0 < x.reserves → reserved code i = 0
  balanced : reserved code code.length = 0

theorem disciplined_nil : Disciplined [] := ⟨by simp, by simp, by simp, rfl⟩

theorem Disciplined.append {xs ys : List Instr} (hx : Disciplined xs) (hy : Disciplined ys)
    (hxs : Linked xs) (hys : Linked ys) : Disciplined (xs ++ ys) := by
  have hright (i : Nat) : reserved (xs ++ ys) (xs.length + i) = reserved ys i := by
    rw [reserved_append_right, hx.balanced, Int.zero_add]
  refine ⟨fun value hmem => ?_, fun i x h j hj => ?_, fun i x h hpos => ?_, ?_⟩
  · exact (List.mem_append.1 hmem).elim (hx.plain value) (hy.plain value)
  · by_cases hi : i < xs.length
    · rw [List.getElem?_append_left hi] at h
      obtain ⟨-, hnext⟩ := hxs.next i x h
      rw [reserved_append_left (hnext j hj).1, reserved_append_left (Nat.le_of_lt hi)]
      exact hx.level i x h j hj
    · obtain ⟨i, rfl⟩ := Nat.exists_eq_add_of_le (Nat.le_of_not_lt hi)
      rw [List.getElem?_append_right (Nat.le_add_right _ _), Nat.add_sub_cancel_left] at h
      rw [Instr.next_add (hys.next i x h).1] at hj
      obtain ⟨j', hj', rfl⟩ := List.mem_map.1 hj
      rw [hright, hright]
      exact hy.level i x h j' hj'
  · by_cases hi : i < xs.length
    · rw [List.getElem?_append_left hi] at h
      rw [reserved_append_left (Nat.le_of_lt hi)]
      exact hx.fresh i x h hpos
    · obtain ⟨i, rfl⟩ := Nat.exists_eq_add_of_le (Nat.le_of_not_lt hi)
      rw [List.getElem?_append_right (Nat.le_add_right _ _), Nat.add_sub_cancel_left] at h
      rw [hright]
      exact hy.fresh i x h hpos
  · rw [List.length_append, hright]
    exact hy.balanced

theorem disciplined_ops {os : List Opcode} (hplain : ∀ value, .set .rsp value ∉ os)
    (hfresh : ∀ (i : Nat) (o : Opcode), os[i]? = some o → 0 < o.reserves →
      reserved (os.map .op) i = 0)
    (hbalanced : reserved (os.map .op) os.length = 0) : Disciplined (os.map .op) := by
  refine ⟨fun value hmem => ?_, fun i x h j hj => ?_, fun i x h hpos => ?_, ?_⟩
  · obtain ⟨o, ho, heq⟩ := List.mem_map.1 hmem
    cases heq
    exact hplain value ho
  · have hx := reserved_succ h
    rw [List.getElem?_map] at h
    obtain ⟨o, -, rfl⟩ := Option.map_eq_some_iff.1 h
    obtain rfl := List.mem_singleton.1 hj
    exact hx
  · rw [List.getElem?_map] at h
    obtain ⟨o, ho, rfl⟩ := Option.map_eq_some_iff.1 h
    exact hfresh i o ho hpos
  · rw [List.length_map]
    exact hbalanced

theorem disciplined_idle {os : List Opcode} (h : ∀ o ∈ os, o.Idle) : Disciplined (os.map .op) := by
  refine disciplined_ops (fun value hmem => h _ hmem rfl) (fun i o _ _ => ?_) ?_
  · exact reserved_of_idle h i
  · exact reserved_of_idle h os.length

theorem reserved_loop {body : List Instr} {distance i : Nat} (h : i ≤ body.length) :
    reserved (Instr.op .test :: .leave distance :: body ++ [.back distance]) (i + 2) =
      reserved body i := by
  rw [List.cons_append, List.cons_append, reserved_cons_succ, reserved_cons_succ,
    reserved_append_left h]
  show 0 + (0 + reserved body i) = reserved body i
  rw [Int.zero_add, Int.zero_add]

theorem reserved_loop_end {body : List Instr} (h : reserved body body.length = 0) (distance : Nat) :
    reserved (Instr.op .test :: .leave distance :: body ++ [.back distance]) (body.length + 3) = 0 := by
  have hback : reserved (body ++ [.back distance]) (body.length + 1) = 0 := by
    rw [reserved_append_right, h]
    rfl
  rw [List.cons_append, List.cons_append, reserved_cons_succ, reserved_cons_succ, hback]
  rfl

/-- The jumps of a loop lead to places where nothing is reserved. -/
theorem Disciplined.loop {body : List Instr} (h : Disciplined body) (hbody : Linked body) :
    Disciplined (loopCode body) := by
  unfold loopCode
  split
  · exact disciplined_nil
  have hend := reserved_loop_end h.balanced (body.length + 2)
  refine ⟨fun value hmem => ?_, fun i x hx j hj => ?_, fun i x hx hpos => ?_, ?_⟩
  · simp only [List.cons_append, List.mem_cons, List.mem_append, Instr.op.injEq, reduceCtorEq,
      List.not_mem_nil, or_false, false_or] at hmem
    exact h.plain value hmem
  · rcases i with _ | _ | i
    · cases hx
      obtain rfl := List.mem_singleton.1 hj
      rfl
    · cases hx
      simp only [Instr.next, List.mem_cons, List.not_mem_nil, or_false] at hj
      rcases hj with rfl | rfl
      · exact reserved_loop (Nat.zero_le _)
      · rw [Nat.add_right_comm 0, Nat.zero_add]
        exact hend
    · rcases getElem?_loop hx with hx | ⟨rfl, rfl⟩
      · obtain ⟨hinside, hnext⟩ := hbody.next i x hx
        rw [Nat.add_comm i 2, Instr.next_add hinside] at hj
        obtain ⟨j', hj', rfl⟩ := List.mem_map.1 hj
        have hlt := (List.getElem?_eq_some_iff.1 hx).1
        rw [Nat.add_comm 2 j', reserved_loop (hnext j' hj').1, reserved_loop (Nat.le_of_lt hlt)]
        exact h.level i x hx j' hj'
      · obtain rfl := List.mem_singleton.1 hj
        rw [Nat.sub_self, reserved_loop (Nat.le_refl _), h.balanced]
        rfl
  · rcases i with _ | _ | i
    · rfl
    · rfl
    · rcases getElem?_loop hx with hx | ⟨rfl, rfl⟩
      · have hlt := (List.getElem?_eq_some_iff.1 hx).1
        rw [reserved_loop (Nat.le_of_lt hlt)]
        exact h.fresh i x hx hpos
      · contradiction
  · have hlength : (Instr.op .test :: .leave (body.length + 2) :: body ++
        [Instr.back (body.length + 2)]).length = body.length + 3 := by simp
    rw [hlength]
    exact hend

/-! ## Blocks -/

theorem idle_rows (rows : List Row) : ∀ o ∈ rows.flatMap Row.code, o.Idle := by
  intro o ho
  obtain ⟨r, -, ho⟩ := List.mem_flatMap.1 ho
  cases r <;>
  · rw [Row.code, adjustment] at ho
    split at ho
    · contradiction
    · obtain rfl := List.mem_singleton.1 ho
      trivial

theorem idle_fill (slot : Nat) (gaps : List (List Row)) : ∀ o ∈ fill slot gaps, o.Idle := by
  induction gaps generalizing slot with
  | nil => simp [fill]
  | cons rows gaps ih =>
    unfold fill
    simp only [List.forall_mem_append, List.forall_mem_cons]
    exact ⟨idle_rows rows, trivial, trivial, ih (slot + 1)⟩

/-- What is done with the buffer of a run of outputs while it is reserved. -/
def bufferCode (gaps : List (List Row)) : List Opcode :=
  fill 0 ([] :: gaps) ++
    [.aimStack, .set .rdx (gaps.length + 1), .set .rdi 1, .set .rax 1, .call]

theorem idle_bufferCode (gaps : List (List Row)) : ∀ o ∈ bufferCode gaps, o.Idle := by
  unfold bufferCode
  simp only [List.forall_mem_append, List.forall_mem_cons]
  exact ⟨idle_fill 0 _, trivial, nofun, nofun, nofun,
    trivial, by simp⟩

theorem code_print (gaps : List (List Row)) :
    (Batch.print gaps).code = .stack false (gaps.length + 1) ::
      (bufferCode gaps ++ [.stack true (gaps.length + 1)]) := by
  simp [Batch.code, bufferCode]

/-- Behind the first instruction of a run of outputs, and up to its last one, a byte is reserved for
each output. -/
theorem reserved_print {gaps : List (List Row)} {i : Nat} (hpos : 0 < i)
    (hi : i < (Batch.print gaps).code.length) :
    reserved ((Batch.print gaps).code.map .op) i = (gaps.length + 1 : Nat) := by
  obtain ⟨j, rfl⟩ : ∃ j, i = j + 1 := ⟨i - 1, by omega⟩
  have hj : j ≤ ((bufferCode gaps).map Instr.op).length := by
    rw [code_print, List.length_cons, List.length_append, List.length_singleton] at hi
    rw [List.length_map]
    omega
  rw [code_print, List.map_cons, List.map_append, reserved_cons_succ, reserved_append_left hj,
    reserved_of_idle (idle_bufferCode gaps), Int.add_zero]
  rfl

theorem reserved_print_end (gaps : List (List Row)) :
    reserved ((Batch.print gaps).code.map .op) (Batch.print gaps).code.length = 0 := by
  have hlast : (Batch.print gaps).code[(bufferCode gaps).length + 1]? =
      some (.stack true (gaps.length + 1)) := by
    rw [code_print, List.getElem?_cons_succ, List.getElem?_append_right (Nat.le_refl _), Nat.sub_self]
    rfl
  have hlength : (Batch.print gaps).code.length = (bufferCode gaps).length + 1 + 1 := by
    rw [code_print, List.length_cons, List.length_append, List.length_singleton]
  rw [hlength, reserved_succ (by rw [List.getElem?_map, hlast]; rfl),
    reserved_print (Nat.succ_pos _) (by omega)]
  exact Int.add_right_neg _

theorem disciplined_print (gaps : List (List Row)) :
    Disciplined ((Batch.print gaps).code.map .op) := by
  refine disciplined_ops (fun value hmem => ?_) (fun i o h hpos => ?_) (reserved_print_end gaps)
  · rw [code_print] at hmem
    simp only [List.mem_cons, List.mem_append, reduceCtorEq, List.not_mem_nil, or_false,
      false_or] at hmem
    exact idle_bufferCode gaps _ hmem rfl
  · cases i with
    | zero => rfl
    | succ i =>
      -- only the first instruction reserves
      rw [code_print, List.getElem?_cons_succ] at h
      have hmem := List.mem_of_getElem? h
      rcases List.mem_append.1 hmem with hmem | hmem
      · rw [(idle_bufferCode gaps o hmem).reserves] at hpos
        contradiction
      · obtain rfl := List.mem_singleton.1 hmem
        have hneg : 0 < -((gaps.length + 1 : Nat) : Int) := hpos
        omega

theorem Batch.idle_code {b : Batch} (h : ∀ gaps, b ≠ .print gaps) : ∀ o ∈ b.code, o.Idle := by
  cases b with
  | row r =>
    have hrow := idle_rows [r]
    rwa [List.flatMap_singleton] at hrow
  | print gaps => exact absurd rfl (h gaps)
  | read gaps =>
    unfold code
    simp only [List.forall_mem_append, List.forall_mem_cons]
    refine ⟨⟨trivial, nofun, nofun, nofun, trivial,
      by simp⟩, ?_⟩
    split
    · simp
    · intro o ho
      obtain rfl := List.mem_singleton.1 ho
      trivial

theorem disciplined_batch (b : Batch) : Disciplined (b.code.map .op) := by
  by_cases h : ∃ gaps, b = .print gaps
  · obtain ⟨gaps, rfl⟩ := h
    exact disciplined_print gaps
  · exact disciplined_idle (b.idle_code fun gaps hb => h ⟨gaps, hb⟩)

theorem disciplined_block (b : Block) : Disciplined b.code := by
  induction b with
  | done => exact disciplined_nil
  | batch b rest ih => exact (disciplined_batch b).append ih (linked_batch b) (linked_block rest)
  | loop body rest ihb ih =>
    exact (ihb.loop (linked_block body)).append ih (linked_block body).loop (linked_block rest)

end Brainfuck
