import Brainfuck.Proofs.Emulation
import Brainfuck.Proofs.Grammar
import Brainfuck.Proofs.Interpretation
import Brainfuck.Proofs.Languages
import Brainfuck.Proofs.Simulation

/-!
# Reads that are made at once

A text that the rule for reads takes is executed character by character, and its reads are made by one
system call. Between two reads the text may move about and may change the cell that the next read
overwrites.

* `exists_gaps_of_isRead` : such a text is that of reads with gaps between them;
* `Interpreter.Config.StaysOnTape` : the next steps do not move off the tape, and then the commands of a
  text can all be executed (`steps_of_staysOnTape`);
* `Store.ReadsInto` : what reading into neighbouring cells makes of a store;
* `batched_reads` : both ways to execute the text do that.
-/

namespace Brainfuck

open Codegen
open Interpreter (Code Config)

/-! ## The texts of reads -/

theorem exists_commands {t : List Char} (h : ∀ c ∈ t, c ∈ "><+-.,".toList) :
    ∃ commands : List Command, commands.map Command.char = t := by
  induction t with
  | nil => exact ⟨[], rfl⟩
  | cons c t ih =>
    rw [List.forall_mem_cons] at h
    obtain ⟨command, rfl⟩ := exists_command_of_mem h.1
    obtain ⟨commands, rfl⟩ := ih h.2
    exact ⟨command :: commands, rfl⟩

theorem IsReadGap.exists_gap {t : List Char} (h : IsReadGap t) :
    ∃ gap : Gap, gap.commands.map Command.char = t := by
  obtain ⟨commands, rfl⟩ := exists_commands fun c hc => mem_of_isSilent (h.silent c hc)
  have hsilent : ∀ c ∈ commands, isSilent c.char = true := fun c hc =>
    h.silent c.char (List.mem_map_of_mem hc)
  exact ⟨⟨commands, hsilent, (isGap_iff h.silent).2 h⟩, rfl⟩

/-- Reads with read gaps between them are the text of a batch. -/
theorem exists_gaps_of_isRead {t : List Char} (h : IsRead t) :
    ∃ gaps : List Gap, t = (Batch.read gaps).text := by
  obtain ⟨texts, hgaps, rfl⟩ := h
  induction texts with
  | nil => exact ⟨[], rfl⟩
  | cons text texts ih =>
    rw [List.forall_mem_cons] at hgaps
    obtain ⟨gap, rfl⟩ := hgaps.1.exists_gap
    obtain ⟨gaps, hrest⟩ := ih hgaps.2
    refine ⟨gap :: gaps, ?_⟩
    rw [Batch.text, Batch.commands_read_cons, List.map_cons, List.map_append, ← Batch.text, ← hrest,
      List.flatMap_cons, List.append_assoc]
    rfl

/-! ## Execution character by character -/

/-- None of the next `n` steps moves off the tape. -/
def Interpreter.Config.StaysOnTape (code : Code) (atEnd : Option UInt8) (n : Nat) (c : Config) : Prop :=
  ∀ m < n, ∀ d e, (Interpreter.system code atEnd).Steps m c d →
    (Interpreter.system code atEnd).step d ≠ .error (.beyondEnd, e) ∧
      (Interpreter.system code atEnd).step d ≠ .error (.beforeStart, e)

variable {code : Code} {atEnd : Option UInt8} {s : Store}

theorem Exec.lt_of_error {commands : List Command} {n k : Nat} {fault : Interpreter.Fault}
    (h : Exec atEnd (.after commands .done) s n k (.error fault)) : n < commands.length := by
  induction commands generalizing s n k with
  | nil => cases h
  | cons c commands ih =>
    rw [Program.after_cons] at h
    cases h with
    | command _ others => exact Nat.succ_lt_succ (ih others)
    | fault => exact Nat.succ_pos _

theorem sits_after_done {text : List Char} {start : Nat} {commands : List Command}
    (h : commands.map Command.char <+: text.drop start) :
    (Program.after commands .done).Sits (Code.ofText text) start := by
  have htext : (Program.after commands .done).text = commands.map Command.char := by
    rw [Program.text_after, Program.text, List.append_nil]
  obtain ⟨rest, hrest⟩ := h
  apply sits_of_text
  · intro i hi
    rw [Program.length, htext] at hi
    rw [Code.ofText, List.getElem?_toArray, ← List.getElem?_drop, ← hrest, htext,
      List.getElem?_append_left hi]
  · intro i j hpair
    rw [Program.pairs_after] at hpair
    contradiction

/-- Commands that do not move off the tape are executed one after the other. -/
theorem steps_of_staysOnTape {text : List Char} {start : Nat} {commands : List Command}
    (h : commands.map Command.char <+: text.drop start) (hs : s.OnTape)
    (stays : (s.config start).StaysOnTape (Code.ofText text) atEnd commands.length) :
    ∃ s', runAll atEnd commands s = .ok s' ∧
      (Interpreter.system (Code.ofText text) atEnd).Steps commands.length (s.config start)
        (s'.config (start + commands.length)) := by
  have hsits := sits_after_done h
  cases hrun : runAll atEnd commands s with
  | ok s' =>
    have hlead : Leads _ _ _ _ (s.config start) (s'.config _) :=
      reaches_of_exec (exec_after_ok hrun (.done s')) hs hsits (.start _ start)
    have hsteps := hlead.steps
    rw [Program.length, Program.text_after, Program.text, List.append_nil, List.length_map] at hsteps
    exact ⟨s', rfl, hsteps⟩
  | error fault =>
    obtain ⟨n, k, hexec⟩ := exec_after_error hrun .done
    obtain ⟨u, pc, hlead, -, hfail⟩ := reaches_of_exec hexec hs hsits (.start _ start)
    obtain ⟨hend, hstart⟩ := stays n hexec.lt_of_error _ (u.config pc) hlead.steps
    rcases hexec.error rfl with rfl | rfl
    · exact absurd hfail hend
    · exact absurd hfail hstart

/-! ## What reads do -/

/-- A store after reads into as many neighbouring cells: the pointer is at the last of them, and they hold
the next bytes of the input, which are gone from it. -/
structure Store.ReadsInto (s : Store) (count : Nat) (s' : Store) : Prop where
  pointer : s'.pointer = s.pointer + (count - 1)
  size : s'.tape.size = s.tape.size
  read : ∀ i < count, s'.tape[s.pointer + i]? = s.input[i]?
  others : ∀ i, i < s.pointer ∨ s.pointer + count ≤ i → s'.tape[i]? = s.tape[i]?
  input : s'.input = s.input.drop count
  output : s'.output = s.output

theorem readsInto_of_runAll {gaps : List Gap} {s' : Store} (hs : s.OnTape)
    (hinput : gaps.length + 1 ≤ s.input.length)
    (h : runAll atEnd (Batch.read gaps).commands s = .ok s') : s.ReadsInto (gaps.length + 1) s' := by
  obtain ⟨hpointer, hrest, houtput, htape⟩ := runAll_read hs (.inl hinput) h
  obtain ⟨hon, hsize⟩ := runAll_onTape h hs
  have hlength : (s.input.take (gaps.length + 1)).length = gaps.length + 1 :=
    List.length_take_of_le hinput
  have hroom : s.pointer + (s.input.take (gaps.length + 1)).length ≤ s.tape.size := by
    unfold Store.OnTape at hon
    omega
  refine ⟨hpointer, hsize, fun i hi => ?_, fun i hi => ?_, hrest, houtput⟩
  · rw [htape, getElem?_writeBytes hroom, if_pos (by omega), Nat.add_sub_cancel_left,
      List.getElem?_take_of_lt hi]
  · rw [htape, getElem?_writeBytes hroom, if_neg (by omega)]

def Machine.Code.ofLines (lines : List Line) : Machine.Code :=
  .ofListing none (Listing.ofLines (lines.map Line.text))

/-- Where a text that the rule for reads takes stays on the tape and finds a byte of the input for each of its
reads, the interpreter comes to its end and has read into neighbouring cells. The lines of the rule take a
machine that belongs to the same store to the same end. -/
theorem batched_reads {text : List Char} {start : Nat} {t : List Char}
    (ht : readRun? (text.drop start) = some t) (hs : s.OnTape) (hinput : t.count ',' ≤ s.input.length)
    (stays : (s.config start).StaysOnTape (Code.ofText text) atEnd t.length) :
    ∃ s' lines,
      (Interpreter.system (Code.ofText text) atEnd).Steps t.length (s.config start)
        (s'.config (start + t.length)) ∧
      s.ReadsInto (t.count ',') s' ∧
      (∀ generate n, Gives (Rule.read.translate {} generate t) n lines n) ∧
      ∀ base machine, Matches base 0 [] s machine → machine.pc = 0 →
        ∃ n machine', (Machine.system (.ofLines lines)).Steps n machine machine' ∧
          (Machine.system (.ofLines lines)).halted machine' = true ∧ Matches base 0 [] s' machine' := by
  have hlongest := ((answers_iff (answers_readRun? (text.drop start))).1 t).1 ht
  obtain ⟨gaps, rfl⟩ := exists_gaps_of_isRead hlongest.belongs
  have hlength : (Batch.read gaps).text.length = (Batch.read gaps).commands.length := List.length_map _
  rw [hlength] at stays ⊢
  rw [count_read] at hinput ⊢
  obtain ⟨s', hrun, hsteps⟩ := steps_of_staysOnTape hlongest.starts hs stays
  refine ⟨s', (Batch.read gaps).code.map (Opcode.line {}), hsteps, readsInto_of_runAll hs hinput hrun,
    fun generate n => gives_read {} generate gaps n, ?_⟩
  intro base machine hmatches hpc
  obtain ⟨hholds, hsize⟩ := holds_lines (Convention.names_default 30000) (.batch (.read gaps) .done)
  rw [Block.code, Block.code, Block.lines, Block.lines, List.append_nil, List.append_nil] at hholds hsize
  obtain ⟨n, machine', hmachine, hend, hmatches', -⟩ :=
    reaching_batch hmatches hpc hholds (show Fed atEnd gaps s.input from .inl hinput) hrun
  refine ⟨n, machine', hmachine, ?_, hmatches'⟩
  rw [Nat.zero_add] at hend
  refine Bool.or_eq_true_iff.2 (.inl (decide_eq_true ?_))
  rw [Machine.Code.ofLines, hsize, hend, List.length_map]

/-- Two reads with a gap that wanders and changes the cell to be overwritten, on a tape that is all of the
machine's memory. The third byte of the input is left. -/
theorem batched_reads_wandering :
    ∃ (s' : Store) (lines : List Line) (n : Nat) (machine' : Machine.State),
      (Interpreter.system (Code.ofText "+,>+-><,".toList) none).Steps 7
        (Store.config ⟨#[4, 5, 6], 0, [7, 9, 8], #[]⟩ 1) (s'.config 8) ∧
      s'.tape[0]? = some 7 ∧ s'.tape[1]? = some 9 ∧ s'.tape[2]? = some 6 ∧ s'.input = [8] ∧
      (Machine.system (.ofLines lines)).Steps n { memory := #[4, 5, 6], input := [7, 9, 8] } machine' ∧
      machine'.registers.get .rbx = 1 ∧ machine'.input = [8] := by
  have ht : readRun? ("+,>+-><,".toList.drop 1) = some ",>+-><,".toList := by decide
  have hs : Store.OnTape ⟨#[4, 5, 6], 0, [7, 9, 8], #[]⟩ := show 0 < 3 by decide
  have hrun : (Interpreter.system (Code.ofText "+,>+-><,".toList) none).drive none 8 0
      (Store.config ⟨#[4, 5, 6], 0, [7, 9, 8], #[]⟩ 1) =
        ⟨⟨8, #[7, 9, 6], 1, [8], #[]⟩, 7, .halted⟩ :=
    rfl
  obtain ⟨hsteps, hhalted, -⟩ := System.drive_halted_iff.1 ⟨_, hrun⟩
  have stays : (Store.config ⟨#[4, 5, 6], 0, [7, 9, 8], #[]⟩ 1).StaysOnTape
      (Code.ofText "+,>+-><,".toList) none 7 := by
    intro m hm d e hd
    have hfails (failure) : (Interpreter.system (Code.ofText "+,>+-><,".toList) none).step d ≠
        .error failure := by
      intro hfail
      have := hsteps.final_unique (.inl hhalted) hd (.inr ⟨_, hfail⟩)
      omega
    exact ⟨hfails _, hfails _⟩
  obtain ⟨s', lines, hread, hinto, -, hmachine⟩ := batched_reads ht hs (by decide) stays
  have hmatches : Matches 0 0 [] ⟨#[4, 5, 6], 0, [7, 9, 8], #[]⟩
      { memory := #[4, 5, 6], input := [7, 9, 8] } :=
    ⟨rfl, by decide, hs, by decide, rfl, rfl, nofun, Nat.le_refl 0, rfl, rfl, rfl, rfl⟩
  obtain ⟨n, machine', hexecuted, -, hmatches'⟩ := hmachine 0 _ hmatches rfl
  refine ⟨s', lines, n, machine', hread, hinto.read 0 (by decide), hinto.read 1 (by decide),
    hinto.others 2 (by decide), hinto.input, hexecuted, ?_, hmatches'.input.trans hinto.input⟩
  rw [hmatches'.pointer, hinto.pointer]
  rfl

end Brainfuck
