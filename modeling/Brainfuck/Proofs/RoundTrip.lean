import Brainfuck.Proofs.Emulation

/-!
# Compiled programs do what the interpreter does

A program that the interpreter runs to its end is compiled to lines that the emulator runs to their
end, with the same output, tape and pointer.

* `OutputsWithin`, `GapClean` : the outputs that share a buffer fit below the tape; reads that share a
  system call have no changes between them;
* `runLines_of_exec` : the emulator follows an execution of the program, within nine steps for each of
  its steps;
* `runLines_of_run` : the round trip, for programs that do not read more than there is;
* `runLines_of_run_atEnd` : the round trip at the end of the input, where a read does nothing;
* `runLines_within_budget` : nine steps for each command of the interpreter are budget enough.
-/

namespace Brainfuck

open Machine Codegen
open Interpreter (Session)

/-- No stretch of outputs, moves and changes has more than `room` outputs. -/
def OutputsWithin (room : Nat) (text : List Char) : Prop :=
  ∀ part, part <:+: text → (∀ c ∈ part, c = '.' ∨ isSilent c = true) → part.count '.' ≤ room

/-- No gap between two reads that are translated together has a change. -/
def GapClean (text : List Char) : Prop :=
  ∀ gap, (',' :: gap ++ [',']) <:+: text → (∀ c ∈ gap, isSilent c = true) → isGap gap = true →
    ∀ c ∈ gap, isChange c = false

/-- The number of reads that the trace of a run shows. -/
def Interpreter.Session.readCount (session : Session) (text : List Char) (input : List Int)
    (turns : Nat) : Nat :=
  (session.trace text input none 0 turns).1.snapshots.countP
    fun snapshot => snapshot.command == some ','

/-- The number of commands that a run has executed, as the last snapshot of its trace has it. -/
def Interpreter.Session.commandCount (session : Session) (text : List Char) (input : List Int)
    (turns : Nat) : Nat :=
  ((session.trace text input none 0 turns).1.snapshots.getLast?.map fun snapshot => snapshot.step).getD 0

theorem mem_text_print {gaps : List (List Row)} {c : Char} (h : c ∈ (Batch.print gaps).text) :
    c = '.' ∨ isSilent c = true := by
  obtain ⟨d, hd, rfl⟩ := List.mem_map.1 h
  obtain ⟨rows, -, hd⟩ := List.mem_flatMap.1 hd
  rcases List.mem_append.1 hd with hd | hd
  · obtain ⟨r, -, hd⟩ := List.mem_flatMap.1 hd
    cases r <;>
    · obtain ⟨up, -, rfl⟩ := List.mem_map.1 hd
      cases up <;> exact .inr rfl
  · obtain rfl := List.mem_singleton.1 hd
    exact .inl rfl

theorem OutputsWithin.roomy {base : Nat} {block : Block}
    (h : OutputsWithin base block.program.text) : block.All (·.Roomy base) := by
  refine Block.all_of_infix fun b hb => ?_
  cases b with
  | print gaps =>
    have hcount : (Batch.print gaps).text.count '.' = gaps.length + 1 := count_printed ([] :: gaps)
    show gaps.length + 1 ≤ base
    rw [← hcount]
    exact h _ hb fun c hc => mem_text_print hc
  | row r => trivial
  | read gaps => trivial

theorem infix_read {gap : Gap} {gaps : List Gap} (h : gap ∈ gaps) :
    (',' :: gap.commands.map Command.char ++ [',']) <:+: (Batch.read gaps).text := by
  induction gaps with
  | nil => contradiction
  | cons first gaps ih =>
    have htext : (Batch.read (first :: gaps)).text =
        (',' :: first.commands.map Command.char) ++ (Batch.read gaps).text := by
      rw [Batch.text, Batch.commands_read_cons, List.map_cons, List.map_append]
      rfl
    rw [htext]
    rcases List.mem_cons.1 h with rfl | h
    · refine ((List.prefix_append_right_inj _).2 ?_).isInfix
      exact List.prefix_append [','] _
    · exact (ih h).trans (List.suffix_append _ _).isInfix

theorem GapClean.clean {block : Block} (h : GapClean block.program.text) :
    block.All Batch.Clean := by
  refine Block.all_of_infix fun b hb => ?_
  cases b with
  | read gaps =>
    intro gap hgap c hc
    refine h (gap.commands.map Command.char) ((infix_read hgap).trans hb) ?_ gap.fits c.char
      (List.mem_map_of_mem hc)
    intro d hd
    obtain ⟨e, he, rfl⟩ := List.mem_map.1 hd
    exact gap.silent e he
  | row r => trivial
  | print gaps => trivial

variable {emulator : Emulator} {cells : Nat} {session : Session} {input : List Int}

/-- The emulator follows an execution of a program, if its budget allows nine steps for each. -/
theorem runLines_of_exec (hemulator : emulator.Standard cells)
    (hsession : session.settings.tapeLength = cells) {block : Block} {atEnd : Option UInt8} {n k : Nat}
    {st : Store} (hexec : Exec atEnd block.program (session.store input) n k (.ok st))
    (hroom : OutputsWithin emulator.tapeBase block.program.text)
    (hsupply : Supplied atEnd (GapClean block.program.text) k (session.store input).input)
    (hlimit : ∀ limit ∈ stepBudget emulator.limit, 9 * n ≤ limit) :
    ∃ turns steps final, steps ≤ 9 * n ∧
      emulator.runLines ((block.lines emulator.convention 0).map Line.text) input turns =
        (.ok ⟨st.output, st.tape, st.pointer, steps, none⟩, final) ∧
      final.state.input = st.input := by
  have hstart := hemulator.matches_initial hsession input
  obtain ⟨hcode, hsize⟩ := holds_lines hemulator.names block
  obtain ⟨m, t, hsteps, hpc, ht, hle⟩ := reaching_of_exec n block (Nat.le_refl n) hexec hstart rfl hcode
    hroom.roomy (hsupply.mono (Nat.le_refl k) GapClean.clean)
  have htape : st.tape.size = cells := by
    rw [(hexec.onTape hstart.onTape rfl).2]
    simp [Session.store, Interpreter.Settings.blankTape, hsession]
  have hhalted : (system (Code.ofListing none (Listing.ofLines
      ((block.lines emulator.convention 0).map Line.text)))).halted t = true := by
    simp [system, hsize, hpc]
  rw [← hstart.plain] at hsteps hhalted
  obtain ⟨turns, hrun⟩ := Emulator.execute_halted_iff.2
    ⟨hsteps, hhalted, fun limit hl => Nat.le_trans hle (hlimit limit hl)⟩
  refine ⟨turns, m, { emulator with state := t }, hle, ?_, ht.input⟩
  rw [Emulator.runLines, hrun]
  simp only [Emulator.outcome, hemulator.resultOf_matches ht htape]

/-- What the interpreter runs to its end without reading more than there is, the compiler turns into
lines that the emulator runs to their end, with the same output, tape and pointer, and with what the
interpreter has not read left to be read. -/
theorem runLines_of_run (hemulator : emulator.Standard cells) (hlimit : emulator.limit = none)
    (hsession : session.settings.tapeLength = cells) {text : List Char} (htext : flaw? text = none)
    (hroom : OutputsWithin emulator.tapeBase text) {turns : Nat} {output : Array UInt8}
    {after : Session} (hrun : session.run text input none turns = (.ok output, after))
    (hreads : session.readCount text input turns ≤ input.length) :
    ∃ lines turns' result final,
      ({ convention := emulator.convention } : Compiler).lineTexts text = .ok lines ∧
      emulator.runLines lines input turns' = (.ok result, final) ∧ result.output = output ∧
      result.tape = after.tape ∧ result.pointer = after.pointer ∧ result.exitStatus = none ∧
      final.state.input = (input.map UInt8.ofInt).drop (session.readCount text input turns) := by
  obtain ⟨block, rfl, -, hcompiled⟩ := exists_lines emulator.convention htext
  obtain ⟨n, k, st, hexec, rfl, rfl, hcount⟩ :=
    Session.exec_of_run (by rw [hsession]; exact_mod_cast hemulator.positive) hrun 0
  have hsupply : Supplied session.settings.atEnd (GapClean block.program.text) k
      (session.store input).input := by
    refine .inl ?_
    rw [← hcount]
    simpa [Session.store, Session.readCount] using hreads
  obtain ⟨turns', steps, final, -, hlines, hinput⟩ :=
    runLines_of_exec hemulator hsession hexec hroom hsupply (by simp [hlimit, stepBudget])
  refine ⟨_, turns', _, final, hcompiled, hlines, rfl, rfl, rfl, rfl, ?_⟩
  rw [hinput, hexec.input rfl, ← hcount]
  rfl

/-- Two bytes are read together, their sum is computed in a loop, and it is written twice. -/
theorem runLines_of_run_sum :
    ∃ lines turns result final,
      ({ convention := { stackSize := (3 : Nat) } } : Compiler).lineTexts ",>+,[-<+>]<..".toList =
        .ok lines ∧
      (Emulator.ofSize 5 { stackSize := (3 : Nat) } (by decide) none).runLines lines [2, 1, 7] turns =
        (.ok result, final) ∧ result.output = #[3, 3] ∧ result.tape = #[3, 0, 0] ∧
      result.pointer = 0 ∧ result.exitStatus = none ∧ final.state.input = [7] := by
  have hemulator : (Emulator.ofSize 5 { stackSize := (3 : Nat) } (by decide) none).Standard 3 :=
    ⟨rfl, by decide, by decide⟩
  have hroom : OutputsWithin (Emulator.ofSize 5 { stackSize := (3 : Nat) } (by decide) none).tapeBase
      ",>+,[-<+>]<..".toList := fun part hpart _ =>
    Nat.le_trans (hpart.sublist.count_le '.') (by decide)
  have hrun : (Session.blank ⟨(3 : Nat), some 0⟩).run ",>+,[-<+>]<..".toList [2, 1, 7] none 20 =
      (.ok #[3, 3], ⟨⟨(3 : Nat), some 0⟩, #[3, 0, 0], 0, #[3, 3]⟩) := by decide
  have hcount : (Session.blank ⟨(3 : Nat), some 0⟩).readCount ",>+,[-<+>]<..".toList [2, 1, 7] 20 =
      2 := by decide
  have h := runLines_of_run hemulator rfl rfl (by decide) hroom hrun (by decide)
  rw [hcount] at h
  exact h

/-- Where a read at the end of the input does nothing, the same holds for programs that read any
number of bytes, as long as no changes stand between reads that are translated together. -/
theorem runLines_of_run_atEnd (hemulator : emulator.Standard cells) (hlimit : emulator.limit = none)
    (hsession : session.settings = ⟨cells, none⟩) {text : List Char} (htext : flaw? text = none)
    (hclean : GapClean text) (hroom : OutputsWithin emulator.tapeBase text) {turns : Nat}
    {output : Array UInt8} {after : Session}
    (hrun : session.run text input none turns = (.ok output, after)) :
    ∃ lines turns' result final,
      ({ convention := emulator.convention } : Compiler).lineTexts text = .ok lines ∧
      emulator.runLines lines input turns' = (.ok result, final) ∧ result.output = output ∧
      result.tape = after.tape ∧ result.pointer = after.pointer := by
  obtain ⟨block, rfl, -, hcompiled⟩ := exists_lines emulator.convention htext
  have hlength : session.settings.tapeLength = cells := by rw [hsession]
  obtain ⟨n, k, st, hexec, rfl, rfl, -⟩ :=
    Session.exec_of_run (by rw [hlength]; exact_mod_cast hemulator.positive) hrun 0
  have hsupply : Supplied session.settings.atEnd (GapClean block.program.text) k
      (session.store input).input := .inr ⟨by rw [hsession]; rfl, hclean⟩
  obtain ⟨turns', steps, final, -, hlines, -⟩ :=
    runLines_of_exec hemulator hlength hexec hroom hsupply (by simp [hlimit, stepBudget])
  exact ⟨_, turns', _, final, hcompiled, hlines, rfl, rfl, rfl⟩

/-- Of three reads that are made together, the third finds nothing. -/
theorem runLines_of_run_atEnd_short :
    ∃ lines turns result final,
      ({ convention := { stackSize := (3 : Nat) } } : Compiler).lineTexts ",>,>,[<]<.".toList =
        .ok lines ∧
      (Emulator.ofSize 4 { stackSize := (3 : Nat) } (by decide) none).runLines lines [5, 6] turns =
        (.ok result, final) ∧ result.output = #[6] ∧ result.tape = #[5, 6, 0] ∧
      result.pointer = 1 := by
  have hemulator : (Emulator.ofSize 4 { stackSize := (3 : Nat) } (by decide) none).Standard 3 :=
    ⟨rfl, by decide, by decide⟩
  have hclean : GapClean ",>,>,[<]<.".toList := fun gap hgap _ _ c hc =>
    Text.forall_mem_of_all (P := (isChange · = false)) (s := ",>,>,[<]<.".toList) (by decide) c
      (hgap.subset (by simp [hc]))
  have hroom : OutputsWithin (Emulator.ofSize 4 { stackSize := (3 : Nat) } (by decide) none).tapeBase
      ",>,>,[<]<.".toList := fun part hpart _ =>
    Nat.le_trans (hpart.sublist.count_le '.') (by decide)
  have hrun : (Session.blank ⟨(3 : Nat), none⟩).run ",>,>,[<]<.".toList [5, 6] none 20 =
      (.ok #[6], ⟨⟨(3 : Nat), none⟩, #[5, 6, 0], 1, #[6]⟩) := by decide
  exact runLines_of_run_atEnd hemulator rfl rfl (by decide) hclean hroom hrun

/-! ## Budgets -/

theorem commandCount_eq {p : Program} {turns n k : Nat} {output : Array UInt8} {after : Session}
    {st : Store} (hlen : 1 ≤ session.settings.tapeLength)
    (hrun : session.run p.text input none turns = (.ok output, after))
    (hexec : Exec session.settings.atEnd p (session.store input) n k (.ok st)) :
    session.commandCount p.text input turns = n := by
  obtain ⟨c, m, hdrive, -, -⟩ := Session.drive_of_run hrun
  obtain ⟨hsteps, hhalted, -⟩ := System.drive_halted_iff.1 ⟨turns, hdrive⟩
  have hlead : Leads _ _ n k _ (st.config (0 + p.length)) :=
    reaches_of_exec hexec (Session.store_onTape hlen input) (sits_ofText p) (.start p 0)
  rw [Nat.zero_add] at hlead
  obtain ⟨rfl, -⟩ := hsteps.halted_unique hhalted hlead.steps halted_config
  rw [Session.commandCount, Session.getLast?_trace 0 hdrive]
  rfl

theorem runLines_ne_outOfSteps {lines : List (List Char)} {turns : Nat} {result : Result}
    {final : Emulator} (h : emulator.runLines lines input turns = (.ok result, final))
    (turns' : Nat) : (emulator.runLines lines input turns').1 ≠ .error .outOfSteps := by
  intro hout
  obtain ⟨start, hstart⟩ : ∃ start, emulator.initial input = start := ⟨_, rfl⟩
  have hended : ∀ turns, (emulator.runLines lines input turns).1 ≠ .error .interrupted →
      (emulator.execute start (Listing.ofLines lines) turns).ending ≠ .paused := by
    intro turns hne hpaused
    apply hne
    rw [Emulator.runLines, hstart, Emulator.outcome, hpaused]
  have hsame := System.drive_eq_of_ended (hended turns (by simp [h])) (hended turns' (by simp [hout]))
  have hrun : emulator.runLines lines input turns = emulator.runLines lines input turns' := by
    rw [Emulator.runLines, Emulator.runLines, hstart]
    simp only [Emulator.execute, hsame]
  rw [← hrun, h] at hout
  contradiction

/-- What the interpreter runs to its end without reading more than there is, the emulator runs to its
end within nine steps for each command of the interpreter, and it does not run out of steps under any
budget that allows for these. -/
theorem runLines_within_budget (hemulator : emulator.Standard cells)
    (hsession : session.settings.tapeLength = cells) {text : List Char} (htext : flaw? text = none)
    (hroom : OutputsWithin emulator.tapeBase text) {turns : Nat} {output : Array UInt8}
    {after : Session} (hrun : session.run text input none turns = (.ok output, after))
    (hreads : session.readCount text input turns ≤ input.length)
    (hlimit : ∀ limit ∈ emulator.limit, ((9 * session.commandCount text input turns : Nat) : Int) ≤ limit) :
    ∃ lines turns' result final,
      ({ convention := emulator.convention } : Compiler).lineTexts text = .ok lines ∧
      emulator.runLines lines input turns' = (.ok result, final) ∧
      result.steps ≤ 9 * session.commandCount text input turns ∧
      ∀ turns'', (emulator.runLines lines input turns'').1 ≠ .error .outOfSteps := by
  obtain ⟨block, rfl, -, hcompiled⟩ := exists_lines emulator.convention htext
  have hlen : 1 ≤ session.settings.tapeLength := by
    rw [hsession]
    exact_mod_cast hemulator.positive
  obtain ⟨n, k, st, hexec, -, -, hcount⟩ := Session.exec_of_run hlen hrun 0
  have hsupply : Supplied session.settings.atEnd (GapClean block.program.text) k
      (session.store input).input := by
    refine .inl ?_
    rw [← hcount]
    simpa [Session.store, Session.readCount] using hreads
  rw [commandCount_eq hlen hrun hexec] at hlimit ⊢
  have hbudget : ∀ limit ∈ stepBudget emulator.limit, 9 * n ≤ limit := by
    intro limit hmem
    obtain ⟨limit', hmem', rfl⟩ := Option.map_eq_some_iff.1 hmem
    have := hlimit limit' hmem'
    omega
  obtain ⟨turns', steps, final, hle, hlines, -⟩ :=
    runLines_of_exec hemulator hsession hexec hroom hsupply hbudget
  exact ⟨_, turns', _, final, hcompiled, hlines, hle, runLines_ne_outOfSteps hlines⟩

/-- Thirteen commands, five of them in a loop, are followed under a budget of 117 steps. -/
theorem runLines_within_budget_sum :
    ∃ lines turns result final,
      ({ convention := { stackSize := (3 : Nat) } } : Compiler).lineTexts ",>+,[-<+>]<..".toList =
        .ok lines ∧
      (Emulator.ofSize 5 { stackSize := (3 : Nat) } (by decide) (some 117)).runLines lines [2, 1, 7]
        turns = (.ok result, final) ∧ result.steps ≤ 117 ∧
      ∀ turns', ((Emulator.ofSize 5 { stackSize := (3 : Nat) } (by decide) (some 117)).runLines lines
        [2, 1, 7] turns').1 ≠ .error .outOfSteps := by
  have hemulator : (Emulator.ofSize 5 { stackSize := (3 : Nat) } (by decide) (some 117)).Standard 3 :=
    ⟨rfl, by decide, by decide⟩
  have hroom : OutputsWithin
      (Emulator.ofSize 5 { stackSize := (3 : Nat) } (by decide) (some 117)).tapeBase
      ",>+,[-<+>]<..".toList := fun part hpart _ =>
    Nat.le_trans (hpart.sublist.count_le '.') (by decide)
  have hrun : (Session.blank ⟨(3 : Nat), some 0⟩).run ",>+,[-<+>]<..".toList [2, 1, 7] none 20 =
      (.ok #[3, 3], ⟨⟨(3 : Nat), some 0⟩, #[3, 0, 0], 0, #[3, 3]⟩) := by decide
  have hcount : (Session.blank ⟨(3 : Nat), some 0⟩).commandCount ",>+,[-<+>]<..".toList [2, 1, 7] 20 =
      13 := by decide
  have hlimit : ∀ limit ∈ (some 117 : Option Int), ((9 * (Session.blank
      ⟨(3 : Nat), some 0⟩).commandCount ",>+,[-<+>]<..".toList [2, 1, 7] 20 : Nat) : Int) ≤ limit := by
    rw [hcount]
    decide
  have h := runLines_within_budget hemulator rfl (by decide) hroom hrun (by decide) hlimit
  rw [hcount] at h
  exact h

end Brainfuck
