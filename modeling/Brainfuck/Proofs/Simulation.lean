import Brainfuck.Proofs.LowMemory

/-!
# The machine follows the program

The code of a block takes the machine from a state that belongs to a store to one that belongs to the
store in which the block's program ends.

* `Passing` : such a chain of steps, with a bound on their number, through states in which nothing has
  been written in front of an address; `Reaching` : such a chain through any states;
* `passing_batch`, `through_test`, `through_back` : batches and the ends of loops;
* `passing_of_exec` : whole blocks, if the outputs have room for their buffers behind the address and the
  input suffices or its end is not seen (`Batch.Roomy`, `Batch.Clean`); `reaching_of_exec` is the case in
  which the buffers may take all that lies below the tape.
-/

namespace Brainfuck

open Machine Codegen

/-- Outputs have room for their buffer below the tape. -/
def Batch.Roomy (base : Nat) : Batch → Prop
  | print gaps => gaps.length + 1 ≤ base
  | _ => True

theorem Batch.Roomy.mono {b : Batch} {room room' : Nat} (h : b.Roomy room) (hle : room ≤ room') :
    b.Roomy room' := by
  cases b with
  | print gaps => exact Nat.le_trans h hle
  | row r => trivial
  | read gaps => trivial

def Batch.Clean : Batch → Prop
  | read gaps => ∀ gap ∈ gaps, gap.Clean
  | _ => True

theorem readsOf_silent {commands : List Command} (h : ∀ c ∈ commands, isSilent c.char = true) :
    readsOf commands = 0 := by
  induction commands with
  | nil => rfl
  | cons c commands ih =>
    have hc : c.reads = 0 := by
      have := h c List.mem_cons_self
      cases c <;> first | rfl | contradiction
    have hrest := ih fun d hd => h d (List.mem_cons_of_mem c hd)
    rw [readsOf] at hrest ⊢
    rw [List.map_cons, List.sum_cons, hc, hrest]

theorem readsOf_append (xs ys : List Command) : readsOf (xs ++ ys) = readsOf xs + readsOf ys := by
  rw [readsOf, List.map_append, List.sum_append]
  rfl

theorem readsOf_read (gaps : List Gap) : readsOf (Batch.read gaps).commands = gaps.length + 1 := by
  have hgaps : readsOf (gaps.flatMap fun gap => gap.commands ++ [.input]) = gaps.length := by
    induction gaps with
    | nil => rfl
    | cons gap gaps ih =>
      rw [List.flatMap_cons, readsOf_append, readsOf_append, readsOf_silent gap.silent, ih,
        List.length_cons, Nat.zero_add, Nat.add_comm]
      rfl
  rw [Batch.commands, ← hgaps, Nat.add_comm]
  rfl

variable {base floor room : Nat} {atEnd : Option UInt8} {code : Machine.Code} {st st' : Store}
  {s t : State}

/-- Whether the end of the input is not seen by a program with `k` reads. -/
def Supplied (atEnd : Option UInt8) (clean : Prop) (k : Nat) (input : List UInt8) : Prop :=
  k ≤ input.length ∨ atEnd = none ∧ clean

theorem Batch.fits_of_supplied {b : Batch} {input : List UInt8} (hroomy : b.Roomy base)
    (hsupply : Supplied atEnd b.Clean (readsOf b.commands) input) : b.Fits base atEnd input := by
  cases b with
  | row r => trivial
  | print gaps => exact hroomy
  | read gaps => exact hsupply.imp (fun h => by rwa [readsOf_read] at h) id

/-- The machine comes from a state at `a` to one at `a'` that belongs to a store, in at most `bound`
steps. -/
def Reaching (code : Machine.Code) (base bound a' : Nat) (st' : Store) (s : State) : Prop :=
  ∃ m t, (system code).Steps m s t ∧ t.pc = a' ∧ Matches base 0 [] st' t ∧ m ≤ bound

theorem Reaching.refl {a bound : Nat} (h : Matches base 0 [] st s) (hpc : s.pc = a) :
    Reaching code base bound a st s :=
  ⟨0, s, .refl s, hpc, h, Nat.zero_le bound⟩

theorem Reaching.trans {m n bound a' : Nat} {st' : Store} (h : (system code).Steps m s t)
    (h' : Reaching code base n a' st' t) (hbound : m + n ≤ bound) :
    Reaching code base bound a' st' s := by
  obtain ⟨n', u, hsteps, hpc, hu, hle⟩ := h'
  exact ⟨m + n', u, h.trans hsteps, hpc, hu, by omega⟩

theorem reaching_batch {b : Batch} {a : Nat} (h : Matches base 0 [] st s) (hpc : s.pc = a)
    (hcode : Holds code .rbx .rcx a (b.code.map .op)) (hfits : b.Fits base atEnd st.input)
    (hrun : runAll atEnd b.commands st = .ok st') :
    Reaching code base (9 * b.commands.length) (a + b.code.length) st' s := by
  obtain ⟨t, hexec, ht⟩ := matches_batch h hfits hrun
  refine ⟨_, t, steps_of_execAll hcode hpc hexec ht.running, ?_, ht, b.length_code_le⟩
  rw [(execAll_frame hexec).1, hpc]

/-- Such a chain of steps, through states in which the bytes in front of an address are still zero. -/
def Passing (code : Machine.Code) (base floor bound a' : Nat) (st' : Store) (s : State) : Prop :=
  ∃ m t, (system code).Through (Untouched floor) m s t ∧ t.pc = a' ∧ Matches base 0 [] st' t ∧ m ≤ bound

theorem Passing.refl {a bound : Nat} (h : Matches base 0 [] st s) (hs : Untouched floor s)
    (hpc : s.pc = a) : Passing code base floor bound a st s :=
  ⟨0, s, .refl hs, hpc, h, Nat.zero_le bound⟩

theorem Passing.trans {m n bound a' : Nat} {st' : Store} (h : (system code).Through (Untouched floor) m s t)
    (h' : Passing code base floor n a' st' t) (hbound : m + n ≤ bound) :
    Passing code base floor bound a' st' s := by
  obtain ⟨n', u, hsteps, hpc, hu, hle⟩ := h'
  exact ⟨m + n', u, h.trans hsteps, hpc, hu, by omega⟩

theorem spares_batch {b : Batch} (h : Matches base 0 [] st s) (hfloor : floor + room ≤ base)
    (hroomy : b.Roomy room) (hfits : b.Fits base atEnd st.input)
    (hrun : runAll atEnd b.commands st = .ok st') : Spares floor b.code s := by
  cases b with
  | row r => exact spares_row h (by omega) r
  | print gaps => exact spares_print h hroomy hfloor hrun
  | read gaps => exact spares_read h (by omega) hfits hrun

theorem passing_batch {b : Batch} {a : Nat} (h : Matches base 0 [] st s) (hs : Untouched floor s)
    (hfloor : floor + room ≤ base) (hpc : s.pc = a) (hcode : Holds code .rbx .rcx a (b.code.map .op))
    (hroomy : b.Roomy room) (hfits : b.Fits base atEnd st.input)
    (hrun : runAll atEnd b.commands st = .ok st') :
    Passing code base floor (9 * b.commands.length) (a + b.code.length) st' s := by
  obtain ⟨t, hexec, ht⟩ := matches_batch h hfits hrun
  have hspares := spares_batch h hfloor hroomy hfits hrun
  refine ⟨_, t, through_of_execAll hcode hpc hexec ht.running hspares hs, ?_, ht, b.length_code_le⟩
  rw [(execAll_frame hexec).1, hpc]

theorem through_test {a distance : Nat} {rest : List Instr} (h : Matches base 0 [] st s)
    (hs : Untouched floor s) (hpc : s.pc = a)
    (hcode : Holds code .rbx .rcx a (.op .test :: .leave distance :: rest)) :
    ∃ t, (system code).Through (Untouched floor) 2 s t ∧ Matches base 0 [] st t ∧
      t.pc = if st.current = 0 then a + 1 + distance else a + 2 := by
  have htest : (Instr.op .test).exec .rbx .rcx s = .ok
      { s with zeroFlag := st.current == 0, pc := s.pc + 1 } := by
    rw [← h.byte_pointer]
    exact if_pos h.pointer_lt
  have hleave : (Instr.leave distance).exec .rbx .rcx
      { s with zeroFlag := st.current == 0, pc := s.pc + 1 } = .ok
      { s with
        zeroFlag := st.current == 0
        pc := if st.current = 0 then s.pc + 1 + distance else s.pc + 2 } := by
    by_cases hzero : st.current = 0 <;> simp [Instr.exec, State.advance, hzero]
  have hpc' : ({ s with zeroFlag := st.current == 0, pc := s.pc + 1 } : State).pc = a + 1 := by
    rw [hpc]
  refine ⟨_, .step hs (hcode.1.running hpc h.running) (hcode.1.step hpc htest)
    (.step (hs.of_memory rfl) (hcode.2.1.running hpc' h.running) (hcode.2.1.step hpc' hleave)
      (.refl (hs.of_memory rfl))), h.frame rfl rfl rfl rfl rfl rfl rfl, ?_⟩
  rw [hpc]

theorem steps_test {a distance : Nat} {rest : List Instr} (h : Matches base 0 [] st s)
    (hpc : s.pc = a) (hcode : Holds code .rbx .rcx a (.op .test :: .leave distance :: rest)) :
    ∃ t, (system code).Steps 2 s t ∧ Matches base 0 [] st t ∧
      t.pc = if st.current = 0 then a + 1 + distance else a + 2 := by
  obtain ⟨t, hthrough, ht⟩ := through_test h (untouched_zero s) hpc hcode
  exact ⟨t, hthrough.steps, ht⟩

theorem through_back {a distance : Nat} (h : Matches base 0 [] st s) (hs : Untouched floor s)
    (hpc : s.pc = a) (hcode : Does code .rbx .rcx a (.back distance)) :
    ∃ t, (system code).Through (Untouched floor) 1 s t ∧ Matches base 0 [] st t ∧ t.pc = a - distance :=
  ⟨{ s with pc := s.pc - distance },
    .step hs (hcode.running hpc h.running) (hcode.step hpc rfl) (.refl (hs.of_memory rfl)),
    h.frame rfl rfl rfl rfl rfl rfl rfl, by rw [hpc]⟩

theorem steps_back {a distance : Nat} (h : Matches base 0 [] st s) (hpc : s.pc = a)
    (hcode : Does code .rbx .rcx a (.back distance)) :
    ∃ t, (system code).Steps 1 s t ∧ Matches base 0 [] st t ∧ t.pc = a - distance := by
  obtain ⟨t, hthrough, ht⟩ := through_back h (untouched_zero s) hpc hcode
  exact ⟨t, hthrough.steps, ht⟩

theorem holds_loop {body rest : Block} {a : Nat} (hne : body.code ≠ [])
    (h : Holds code .rbx .rcx a (Block.loop body rest).code) :
    (∃ others, Holds code .rbx .rcx a (.op .test :: .leave (body.code.length + 2) :: others)) ∧
      Holds code .rbx .rcx (a + 2) body.code ∧
      Does code .rbx .rcx (a + 2 + body.code.length) (.back (body.code.length + 2)) ∧
      Holds code .rbx .rcx (a + (body.code.length + 3)) rest.code ∧
      (Block.loop body rest).code.length = body.code.length + 3 + rest.code.length := by
  rw [Block.code, loopCode_append hne] at h ⊢
  obtain ⟨hbody, hback, hrest⟩ : Holds code .rbx .rcx (a + 1 + 1) body.code ∧
      Holds code .rbx .rcx (a + 1 + 1 + body.code.length) _ := holds_append.1 h.2.2
  refine ⟨⟨_, h⟩, hbody, hback, ?_, ?_⟩
  · rwa [show a + (body.code.length + 3) = a + 1 + 1 + body.code.length + 1 by omega]
  · simp only [List.length_cons, List.length_append]
    omega

theorem Supplied.drop {clean : Prop} {k l : Nat} {input : List UInt8}
    (h : Supplied atEnd clean (k + l) input) : Supplied atEnd clean l (input.drop k) := by
  refine h.imp (fun hle => ?_) id
  rw [List.length_drop]
  omega

theorem Supplied.mono {clean clean' : Prop} {k l : Nat} {input : List UInt8}
    (h : Supplied atEnd clean k input) (hkl : l ≤ k) (hclean : clean → clean') :
    Supplied atEnd clean' l input :=
  h.imp (Nat.le_trans hkl) (And.imp_right hclean)

/-- The machine follows an execution of a block's program and writes nothing in front of the buffers of
its outputs. -/
theorem passing_of_exec (hfloor : floor + room ≤ base) (N : Nat) (block : Block) {n k a : Nat} (hn : n ≤ N)
    (hexec : Exec atEnd block.program st n k (.ok st')) (h : Matches base 0 [] st s)
    (hs : Untouched floor s) (hpc : s.pc = a) (hcode : Holds code .rbx .rcx a block.code)
    (hroomy : block.All (·.Roomy room))
    (hsupply : Supplied atEnd (block.All Batch.Clean) k st.input) :
    Passing code base floor (9 * n) (a + block.code.length) st' s := by
  -- on the number of steps of the execution, since a loop is executed again, and inside it on the block
  induction N using Nat.strongRecOn generalizing block st st' s n k a with
  | ind N ihN =>
    induction block generalizing st st' s n k a with
    | done =>
      cases hexec
      exact .refl h hs hpc
    | batch b rest ih =>
      obtain ⟨st₁, m, l, hrun, hrest, rfl, rfl⟩ := exec_after_ok_inv hexec
      obtain ⟨hcode₁, hcode₂⟩ := holds_append.1 hcode
      rw [List.length_map] at hcode₂
      have hfits : b.Fits base atEnd st.input := b.fits_of_supplied (hroomy.1.mono (by omega))
        (hsupply.mono (Nat.le_add_right _ _) And.left)
      obtain ⟨m₁, s₁, hsteps, hpc₁, h₁, hle⟩ := passing_batch h hs hfloor hpc hcode₁ hroomy.1 hfits hrun
      have hinput : st₁.input = st.input.drop (readsOf b.commands) := by
        simpa using (exec_after_ok hrun (.done st₁)).input rfl
      have hnext := ih (by omega) hrest h₁ hsteps.last hpc₁ hcode₂ hroomy.2
        (by rw [hinput]; exact (hsupply.mono (Nat.le_refl _) And.right).drop)
      rw [Block.code, List.length_append, List.length_map, ← Nat.add_assoc]
      exact .trans hsteps hnext (by omega)
    | loop body rest ihb ih =>
      rw [Block.program] at hexec
      by_cases hnil : body.code = []
      · have hsame : (Block.loop body rest).code = rest.code := by
          rw [Block.code, loopCode, if_pos hnil, List.nil_append]
        cases hexec with
        | skip _ others =>
          rw [hsame] at hcode ⊢
          exact .trans (.refl hs) (ih (by omega) others h hs hpc hcode hroomy.2
            (hsupply.mono (Nat.le_refl _) And.right)) (by omega)
        | again _ inside others =>
          obtain ⟨m₁, s₁, hsteps, hpc₁, h₁, hle⟩ := ihb (by omega) inside h hs hpc
            (by rw [hnil]; trivial) hroomy.1 (hsupply.mono (Nat.le_add_right _ _) And.left)
          rw [hnil, List.length_nil, Nat.add_zero] at hpc₁
          refine .trans hsteps (ihN _ (by omega) (.loop body rest) (Nat.le_refl _) others h₁ hsteps.last
            hpc₁ hcode hroomy ?_) (by omega)
          rw [inside.input rfl]
          exact hsupply.drop
      · obtain ⟨⟨_, htest⟩, hbody, hback, hrest, hlength⟩ := holds_loop hnil hcode
        obtain ⟨s₁, hsteps₁, h₁, hpc₁⟩ := through_test h hs hpc htest
        cases hexec with
        | skip zero others =>
          rw [if_pos zero] at hpc₁
          have hnext := ih (by omega) others h₁ hsteps₁.last (hpc₁.trans (by omega)) hrest hroomy.2
            (hsupply.mono (Nat.le_refl _) And.right)
          rw [hlength, ← Nat.add_assoc]
          exact .trans hsteps₁ hnext (by omega)
        | again nonzero inside others =>
          rw [if_neg nonzero] at hpc₁
          obtain ⟨m₂, s₂, hsteps₂, hpc₂, h₂, hle⟩ := ihb (by omega) inside h₁ hsteps₁.last hpc₁ hbody
            hroomy.1 (hsupply.mono (Nat.le_add_right _ _) And.left)
          obtain ⟨s₃, hsteps₃, h₃, hpc₃⟩ := through_back h₂ hsteps₂.last hpc₂ hback
          refine .trans (hsteps₁.trans (hsteps₂.trans hsteps₃)) (ihN _ (by omega) (.loop body rest)
            (Nat.le_refl _) others h₃ hsteps₃.last (hpc₃.trans (by omega)) hcode hroomy ?_) (by omega)
          rw [inside.input rfl]
          exact hsupply.drop

/-- The machine follows an execution of a block's program. -/
theorem reaching_of_exec (N : Nat) (block : Block) {n k a : Nat} (hn : n ≤ N)
    (hexec : Exec atEnd block.program st n k (.ok st')) (h : Matches base 0 [] st s) (hpc : s.pc = a)
    (hcode : Holds code .rbx .rcx a block.code) (hroomy : block.All (·.Roomy base))
    (hsupply : Supplied atEnd (block.All Batch.Clean) k st.input) :
    Reaching code base (9 * n) (a + block.code.length) st' s := by
  obtain ⟨m, t, hthrough, hrest⟩ := passing_of_exec (Nat.le_of_eq (Nat.zero_add base)) N block hn hexec h
    (untouched_zero s) hpc hcode hroomy hsupply
  exact ⟨m, t, hthrough.steps, hrest⟩

end Brainfuck
