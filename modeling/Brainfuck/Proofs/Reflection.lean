import Brainfuck.Proofs.RoundTrip

/-!
# Compiled programs end only where the interpreter does

A run of the emulator that returns shows that the interpreter does not run for ever, if every loop
of the program has instructions in its body.

* `Lasts` : the machine makes a number of steps, or fails before;
* `print_fails` : outputs whose buffer has no room below the tape cannot be executed;
* `exec_or_lasts` : the program of a block comes to its end or to a fault, or the machine lasts for
  any number of steps;
* `run_of_runLines` : the interpreter ends as the emulator does, or moves off the tape.
-/

namespace Brainfuck

open Machine Codegen
open Interpreter (Session)

variable {base : Nat} {code : Machine.Code} {st st' : Store} {s t : State}

/-- The machine makes at least `n` steps from a state, unless it fails before. -/
def Lasts (code : Machine.Code) (n : Nat) (s : State) : Prop :=
  ∃ m u, (system code).Steps m s u ∧
    (n ≤ m ∨ (system code).halted u = false ∧ ∃ e v, (system code).step u = .error (e, v))

theorem Lasts.trans {m n : Nat} (h : (system code).Steps m s t) (h' : Lasts code n t) :
    Lasts code (m + n) s := by
  obtain ⟨m', u, hsteps, hend⟩ := h'
  exact ⟨m + m', u, h.trans hsteps, hend.imp_left (Nat.add_le_add_left · m)⟩

theorem Lasts.mono {m n : Nat} (h : Lasts code n s) (hmn : m ≤ n) : Lasts code m s := by
  obtain ⟨k, u, hsteps, hend⟩ := h
  exact ⟨k, u, hsteps, hend.imp_left (Nat.le_trans hmn)⟩

theorem lasts_zero (s : State) : Lasts code 0 s := ⟨0, s, .refl s, .inl (Nat.le_refl 0)⟩

/-- A machine that halts does not last longer. -/
theorem Lasts.le_of_halted {m n : Nat} (h : Lasts code n s) (hsteps : (system code).Steps m s t)
    (hhalted : (system code).halted t = true) : n ≤ m := by
  obtain ⟨k, u, hsteps', hle | ⟨hrunning, e, v, hfail⟩⟩ := h
  · exact Nat.le_trans hle (hsteps.le_of_final (.inl hhalted) hsteps')
  · exact (hsteps.not_halted_of_failed hhalted hsteps' hrunning hfail).elim

/-! ## Buffers without room -/

/-- The instructions that fill the output buffer. -/
def Opcode.Fills : Opcode → Prop
  | shift _ _ | change _ _ | load | save _ => True
  | _ => False

theorem Opcode.Fills.stack_eq {o : Opcode} (ho : o.Fills) (h : o.exec .rbx .rcx s = .ok t) :
    t.registers.get .rsp = s.registers.get .rsp := by
  cases o <;> simp only [exec] at h
  case shift =>
    cases h
    simp [State.adjust]
  case change | save =>
    obtain ⟨-, rfl⟩ := State.of_within h
    rfl
  case load =>
    obtain ⟨-, rfl⟩ := State.of_within h
    simp
  all_goals contradiction

theorem execAll_stack_eq {os : List Opcode} (hos : ∀ o ∈ os, o.Fills)
    (h : execAll .rbx .rcx os s = .ok t) : t.registers.get .rsp = s.registers.get .rsp := by
  induction os generalizing s with
  | nil =>
    cases h
    rfl
  | cons o os ih =>
    obtain ⟨u, ho, hrest⟩ := execAll_cons_ok h
    rw [ih (fun o ho => hos o (List.mem_cons_of_mem _ ho)) hrest,
      (hos o List.mem_cons_self).stack_eq ho]

theorem fills_rows (rows : List Row) : ∀ o ∈ rows.flatMap Row.code, o.Fills := by
  intro o ho
  obtain ⟨r, -, ho⟩ := List.mem_flatMap.1 ho
  cases r <;>
  · rw [Row.code, adjustment] at ho
    split at ho
    · contradiction
    · obtain rfl := List.mem_singleton.1 ho
      trivial

theorem fills_fill (slot : Nat) (gaps : List (List Row)) : ∀ o ∈ fill slot gaps, o.Fills := by
  induction gaps generalizing slot with
  | nil => simp [fill]
  | cons rows gaps ih =>
    intro o ho
    simp only [fill, List.mem_append, List.mem_cons] at ho
    rcases ho with ho | rfl | rfl | ho
    · exact fills_rows rows o ho
    · trivial
    · trivial
    · exact ih (slot + 1) o ho

theorem lt_of_save {os : List Opcode} (hos : ∀ o ∈ os, o.Fills)
    (h : execAll .rbx .rcx os s = .ok t) {slot : Nat} (hmem : .save slot ∈ os) :
    s.registers.get .rsp + slot < s.memory.size := by
  obtain ⟨before, after, rfl⟩ := List.append_of_mem hmem
  obtain ⟨u, hbefore, hrest⟩ := execAll_append_ok h
  obtain ⟨v, hsave, -⟩ := execAll_cons_ok hrest
  obtain ⟨hlt, -⟩ := State.of_within hsave
  rwa [execAll_stack_eq (fun o ho => hos o (List.mem_append_left _ ho)) hbefore,
    (execAll_frame hbefore).2.1] at hlt

theorem save_mem_fill (slot : Nat) (rows : List Row) (gaps : List (List Row)) :
    .save (slot + gaps.length) ∈ fill slot (rows :: gaps) := by
  induction gaps generalizing slot rows with
  | nil => simp [fill]
  | cons rows' gaps ih =>
    have := ih (slot + 1) rows'
    rw [List.length_cons, Nat.add_comm gaps.length, ← Nat.add_assoc, fill]
    simp [this]

/-- A buffer that has no room below the tape is not filled: its last slot is no address. -/
theorem print_fails {gaps : List (List Row)} (h : Matches base 0 [] st s)
    (hroom : base < gaps.length + 1) :
    ∃ f t, execAll .rbx .rcx (.stack false (gaps.length + 1) :: fill 0 ([] :: gaps)) s =
      .error (f, t) := by
  cases hexec : execAll .rbx .rcx (.stack false (gaps.length + 1) :: fill 0 ([] :: gaps)) s with
  | error e => exact ⟨e.1, e.2, rfl⟩
  | ok t =>
    obtain ⟨u, hreserve, hfill⟩ := execAll_cons_ok hexec
    cases hreserve
    have hlt := lt_of_save (fills_fill 0 ([] :: gaps)) hfill (save_mem_fill 0 [] gaps)
    have hbound := h.bound
    have hstack := h.stack
    simp only [State.adjust, Registers.get_set, if_true, h.size, word, Bool.false_eq_true,
      if_false] at hlt
    omega

theorem lasts_print {gaps : List (List Row)} {a : Nat} (h : Matches base 0 [] st s) (hpc : s.pc = a)
    (hcode : Holds code .rbx .rcx a ((Batch.print gaps).code.map .op))
    (hroom : base < gaps.length + 1) (n : Nat) : Lasts code n s := by
  obtain ⟨f, t, hexec⟩ := print_fails h hroom
  rw [Batch.code, List.map_append] at hcode
  have hcall : .call ∉ .stack false (gaps.length + 1) :: fill 0 ([] :: gaps) := by
    intro hmem
    rcases List.mem_cons.1 hmem with hmem | hmem
    · contradiction
    · exact fills_fill 0 ([] :: gaps) _ hmem
  obtain ⟨m, u, e, hsteps, hrunning, hfail⟩ :=
    fails_of_execAll (holds_append.1 hcode).1 hpc hexec h.running hcall
  exact ⟨m, u, hsteps, .inr ⟨hrunning, e, t, hfail⟩⟩

/-! ## Blocks -/

/-- For any number of steps, the program of a block comes to its end and the machine with it, or it
comes to a fault, or the machine makes that many steps. -/
theorem exec_or_lasts (N : Nat) (block : Block) {a : Nat} (h : Matches base 0 [] st s)
    (hpc : s.pc = a) (hcode : Holds code .rbx .rcx a block.code) (hclean : block.All Batch.Clean)
    (hfull : block.Full) :
    (∃ n k m st', Exec none block.program st n k (.ok st') ∧
        Reaching code base m (a + block.code.length) st' s) ∨
      (∃ n k f, Exec none block.program st n k (.error f)) ∨ Lasts code N s := by
  -- on the number of steps, of which a loop makes some each time it is entered, and inside it on the block
  induction N using Nat.strongRecOn generalizing block st s a with
  | ind N ihN =>
    induction block generalizing st s a with
    | done => exact .inl ⟨0, 0, 0, st, .done st, .refl h hpc⟩
    | batch b rest ih =>
      obtain ⟨hcode₁, hcode₂⟩ := holds_append.1 hcode
      rw [List.length_map] at hcode₂
      cases hrun : runAll none b.commands st with
      | error f =>
        obtain ⟨n, k, hexec⟩ := exec_after_error hrun rest.program
        exact .inr (.inl ⟨n, k, f, hexec⟩)
      | ok st₁ =>
        by_cases hroomy : b.Roomy base
        · have hfits : b.Fits base none st.input :=
            b.fits_of_supplied hroomy (.inr ⟨rfl, hclean.1⟩)
          obtain ⟨m₁, s₁, hsteps, hpc₁, h₁, -⟩ := reaching_batch h hpc hcode₁ hfits hrun
          rcases ih h₁ hpc₁ hcode₂ hclean.2 hfull with
            ⟨n, k, m, st', hexec, hreach⟩ | ⟨n, k, f, hexec⟩ | hlasts
          · refine .inl ⟨_, _, m₁ + m, st', exec_after_ok hrun hexec, ?_⟩
            rw [Block.code, List.length_append, List.length_map, ← Nat.add_assoc]
            exact .trans hsteps hreach (Nat.le_refl _)
          · exact .inr (.inl ⟨_, _, f, exec_after_ok hrun hexec⟩)
          · exact .inr (.inr ((Lasts.trans hsteps hlasts).mono (Nat.le_add_left _ _)))
        · cases b with
          | print gaps => exact .inr (.inr (lasts_print h hpc hcode₁ (Nat.lt_of_not_le hroomy) N))
          | row r => exact absurd trivial hroomy
          | read gaps => exact absurd trivial hroomy
    | loop body rest ihb ih =>
      obtain ⟨hne, hfull₁, hfull₂⟩ := hfull
      obtain ⟨⟨_, htest⟩, hbody, hback, hrest, hlength⟩ := holds_loop hne hcode
      obtain ⟨s₁, hsteps₁, h₁, hpc₁⟩ := steps_test h hpc htest
      rw [hlength, ← Nat.add_assoc]
      by_cases hzero : st.current = 0
      · rw [if_pos hzero] at hpc₁
        rcases ih h₁ (hpc₁.trans (by omega)) hrest hclean.2 hfull₂ with
          ⟨n, k, m, st', hexec, hreach⟩ | ⟨n, k, f, hexec⟩ | hlasts
        · exact .inl ⟨n + 1, k, 2 + m, st', .skip hzero hexec, .trans hsteps₁ hreach (Nat.le_refl _)⟩
        · exact .inr (.inl ⟨n + 1, k, f, .skip hzero hexec⟩)
        · exact .inr (.inr ((Lasts.trans hsteps₁ hlasts).mono (Nat.le_add_left _ _)))
      · rw [if_neg hzero] at hpc₁
        rcases ihb h₁ hpc₁ hbody hclean.1 hfull₁ with
          ⟨n, k, m, st₂, hinside, m₂, s₂, hsteps₂, hpc₂, h₂, -⟩ | ⟨n, k, f, hinside⟩ | hlasts
        · cases N with
          | zero => exact .inr (.inr (lasts_zero s))
          | succ N =>
            obtain ⟨s₃, hsteps₃, h₃, hpc₃⟩ := steps_back h₂ hpc₂ hback
            have hround := hsteps₁.trans (hsteps₂.trans hsteps₃)
            rcases ihN N (Nat.lt_succ_self N) (.loop body rest) h₃ (hpc₃.trans (by omega)) hcode hclean
              ⟨hne, hfull₁, hfull₂⟩ with ⟨n', k', m', st', hexec, hreach⟩ | ⟨n', k', f, hexec⟩ | hlasts
            · rw [hlength, ← Nat.add_assoc] at hreach
              exact .inl ⟨_, _, _, st', .again hzero hinside hexec,
                .trans hround hreach (Nat.le_refl _)⟩
            · exact .inr (.inl ⟨_, _, f, .again hzero hinside hexec⟩)
            · exact .inr (.inr ((Lasts.trans hround hlasts).mono (by omega)))
        · exact .inr (.inl ⟨_, _, f, .escape hzero hinside⟩)
        · exact .inr (.inr ((Lasts.trans hsteps₁ hlasts).mono (Nat.le_add_left _ _)))

/-! ## Runs -/

/-- The inside of every bracket pair of a text is compiled to some lines. -/
def LoopsGenerate (compiler : Compiler) (text : List Char) : Prop :=
  ∀ i j, (i, j) ∈ bracketPairs text → compiler.lineTexts ((text.take j).drop (i + 1)) ≠ .ok []

/-- If the inside of every loop is compiled to some lines, it has instructions. The text of the block
stands between two others, since the pairs are those of a whole text. -/
theorem Block.full_of_inside {compiler : Compiler} {b : Block} (before after : List Char)
    (hfaithful : b.Faithful compiler.generator)
    (h : ∀ i j, (i, j) ∈ b.program.pairs before.length →
      compiler.lineTexts (((before ++ b.program.text ++ after).take j).drop (i + 1)) ≠ .ok []) :
    b.Full := by
  induction b generalizing before after with
  | done => trivial
  | batch b rest ih =>
    have htext : before ++ (Block.batch b rest).program.text ++ after =
        (before ++ b.text) ++ rest.program.text ++ after := by
      simp [program, Batch.text]
    refine ih (before ++ b.text) after hfaithful fun i j hij => ?_
    rw [← htext]
    refine h i j ?_
    rw [program, Program.pairs_after]
    simpa [Batch.text] using hij
  | loop body rest ihb ih =>
    obtain ⟨hgen, hbody, hrest⟩ := hfaithful
    have htext : (Block.loop body rest).program.text =
        '[' :: body.program.text ++ ']' :: rest.program.text := rfl
    rw [htext] at h
    refine ⟨fun hnil => ?_, ihb (before ++ ['[']) (']' :: rest.program.text ++ after) hbody
      fun i j hij => ?_, ih (before ++ '[' :: body.program.text ++ [']']) after hrest
      fun i j hij => ?_⟩
    · refine h before.length (before.length + body.program.length + 1) (by simp [program, Program.pairs])
        ?_
      have hinside : ((before ++ ('[' :: body.program.text ++ ']' :: rest.program.text) ++ after).take
          (before.length + body.program.length + 1)).drop (before.length + 1) = body.program.text :=
        take_drop_brackets before body.program.text rest.program.text after
      rw [hinside, lineTexts_program hgen, (lines_eq_nil_iff _ 0 body).2 hnil]
      rfl
    · have := h i j (by
        rw [program, Program.pairs]
        exact List.mem_append_left _ (by simpa using hij))
      simpa using this
    · have := h i j (by
        rw [program, Program.pairs]
        refine List.mem_append_right _ (List.mem_cons_of_mem _ ?_)
        simpa [Nat.add_assoc] using hij)
      simpa using this

variable {emulator : Emulator} {cells : Nat} {session : Session} {input : List Int}

/-- If the emulator brings the lines of a program to their end, the interpreter comes to its end with
the same output, tape and pointer, or moves off the tape. -/
theorem run_of_runLines (hemulator : emulator.Standard cells)
    (hsession : session.settings = ⟨cells, none⟩) {text : List Char} (htext : flaw? text = none)
    (hclean : GapClean text) (hloops : LoopsGenerate { convention := emulator.convention } text)
    {lines : List (List Char)}
    (hlines : ({ convention := emulator.convention } : Compiler).lineTexts text = .ok lines)
    {turns : Nat} {result : Result} (hrun : (emulator.runLines lines input turns).1 = .ok result) :
    ∃ turns',
      (∃ after, session.run text input none turns' = (.ok result.output, after) ∧
        after.tape = result.tape ∧ after.pointer = result.pointer) ∨
      ∃ fault after, session.run text input none turns' = (.error (.fault fault), after) ∧
        (fault = .beyondEnd ∨ fault = .beforeStart) := by
  obtain ⟨block, rfl, hfaithful, hcompiled⟩ := exists_lines emulator.convention htext
  obtain rfl : (block.lines emulator.convention 0).map Line.text = lines :=
    Except.ok.inj (hcompiled.symm.trans hlines)
  have hfull : block.Full := by
    refine Block.full_of_inside [] [] hfaithful fun i j hij => ?_
    rw [List.nil_append, List.append_nil]
    exact hloops i j (by rwa [bracketPairs_text])
  have hlength : session.settings.tapeLength = cells := by rw [hsession]
  have hpositive : 1 ≤ session.settings.tapeLength := by
    rw [hlength]
    exact_mod_cast hemulator.positive
  have hatEnd : session.settings.atEnd = none := by rw [hsession]; rfl
  have hstart := hemulator.matches_initial hlength input
  obtain ⟨hcode, hsize⟩ := holds_lines hemulator.names block
  obtain ⟨t, n, hexecute, hresult⟩ := Emulator.outcome_eq_ok hrun
  obtain ⟨hsteps, hhalted, -⟩ := Emulator.execute_halted_iff.1 ⟨turns, hexecute⟩
  rw [hstart.plain] at hsteps hhalted
  rcases exec_or_lasts (n + 1) block hstart rfl hcode hclean.clean hfull with
    ⟨_, _, m, st, hexec, _, u, hsteps', hpc, hu, -⟩ | ⟨_, _, fault, hexec⟩ | hlasts
  · have hend : (system (Code.ofListing none (Listing.ofLines
        ((block.lines emulator.convention 0).map Line.text)))).halted u = true := by
      simp [system, hsize, hpc]
    obtain ⟨-, rfl⟩ := hsteps.halted_unique hhalted hsteps' hend
    have htape : st.tape.size = cells := by
      rw [(hexec.onTape hstart.onTape rfl).2]
      simp [Session.store, Interpreter.Settings.blankTape, hlength]
    rw [hemulator.resultOf_matches hu htape] at hresult
    cases hresult
    rw [← hatEnd] at hexec
    obtain ⟨turns', hrun'⟩ := Session.run_of_exec_ok hpositive hexec
    exact ⟨turns', .inl ⟨_, hrun', rfl, rfl⟩⟩
  · have hfault := hexec.error rfl
    rw [← hatEnd] at hexec
    obtain ⟨turns', after, hrun'⟩ := Session.run_of_exec_error hpositive hexec
    exact ⟨turns', .inr ⟨fault, after, hrun', hfault⟩⟩
  · have := hlasts.le_of_halted hsteps hhalted
    omega

/-- Bytes are copied up to the first zero. -/
theorem run_of_runLines_copy :
    ∃ turns, (∃ after, (Session.blank ⟨(1 : Nat), none⟩).run ",[.,]".toList [7, 0] none turns =
        (.ok #[7], after) ∧ after.tape = #[0] ∧ after.pointer = 0) ∨
      ∃ fault after, (Session.blank ⟨(1 : Nat), none⟩).run ",[.,]".toList [7, 0] none turns =
        (.error (.fault fault), after) ∧ (fault = .beyondEnd ∨ fault = .beforeStart) := by
  have hemulator : (Emulator.ofSize 2 { stackSize := (1 : Nat) } (by decide) none).Standard 1 :=
    ⟨rfl, by decide, by decide⟩
  have hclean : GapClean ",[.,]".toList := fun gap hgap _ _ c hc =>
    Text.forall_mem_of_all (P := (isChange · = false)) (s := ",[.,]".toList) (by decide) c
      (hgap.subset (by simp [hc]))
  have hloops : LoopsGenerate { convention := { stackSize := (1 : Nat) } } ",[.,]".toList := by
    intro i j hij
    have hpairs : bracketPairs ",[.,]".toList = [(1, 4)] := by decide
    rw [hpairs, List.mem_singleton] at hij
    cases hij
    decide +kernel
  have hlines : ({ convention := { stackSize := (1 : Nat) } } : Compiler).lineTexts ",[.,]".toList =
      .ok ((({ convention := { stackSize := (1 : Nat) } } : Compiler).lineTexts
        ",[.,]".toList).toOption.getD []) := by
    decide +kernel
  have hrun : ((Emulator.ofSize 2 { stackSize := (1 : Nat) } (by decide) none).runLines
      ((({ convention := { stackSize := (1 : Nat) } } : Compiler).lineTexts
        ",[.,]".toList).toOption.getD []) [7, 0] 100).1 = .ok ⟨#[7], #[0], 0, 24, none⟩ := by
    decide +kernel
  exact run_of_runLines hemulator rfl (by decide) hclean hloops hlines hrun

end Brainfuck
