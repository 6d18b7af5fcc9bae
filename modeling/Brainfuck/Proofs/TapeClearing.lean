import Brainfuck.Proofs.WholeProgram

/-!
# The tape of a whole program is cleared

A whole program starts on a stack of which nothing is known. Its first eight instructions make the
last cells of the memory a tape of zeros.

* `Machine.upTo` : the machine, followed until it comes to a place, whether it has exited or not;
* `stands_prologue` : the first instructions of a whole program around given lines, none of which
  defines the label that clearing jumps back to;
* `prologue_clears_tape` : these instructions clear the tape, and leave the rest of the memory and the
  streams as they were.
-/

namespace Brainfuck

open Machine Text

/-! ## The code in front of the program -/

theorem exists_line_of_mem_labels {name : List Char} {i : Nat} {lines : List (List Char)}
    {line count : Nat} (h : (name, i) ∈ (Listing.ofLinesFrom line count lines).labels) :
    ∃ text ∈ lines, Statement.ofLine text = .label name := by
  induction lines generalizing line count with
  | nil => contradiction
  | cons text lines ih =>
    unfold Listing.ofLinesFrom at h
    split at h
    · obtain ⟨text', hmem, htext⟩ := ih h
      exact ⟨text', List.mem_cons_of_mem _ hmem, htext⟩
    · rename_i name' hname
      rcases List.mem_cons.1 h with heq | hmem
      · cases heq
        exact ⟨text, List.mem_cons_self, hname⟩
      · obtain ⟨text', hmem', htext⟩ := ih hmem
        exact ⟨text', List.mem_cons_of_mem _ hmem', htext⟩
    · obtain ⟨text', hmem, htext⟩ := ih h
      exact ⟨text', List.mem_cons_of_mem _ hmem, htext⟩

theorem ofLines_prologue_append (cells : Nat) (lines : List (List Char)) :
    Listing.ofLines (prologue cells ++ lines) =
      (opening cells).append (Listing.ofLinesFrom 16 8 lines) := by
  have hopening := ofLines_prologue cells
  unfold Listing.ofLines at hopening ⊢
  rw [Listing.ofLinesFrom_append, hopening]
  rfl

theorem target?_clear {cells : Nat} {lines : List (List Char)}
    (h : ∀ line ∈ lines, Statement.ofLine line ≠ .label ".clear".toList) :
    (Listing.ofLines (prologue cells ++ lines)).target? ".clear".toList = some 4 := by
  have hlater : (Listing.ofLinesFrom 16 8 lines).labels.reverse.lookup ".clear".toList = none := by
    rw [List.lookup_eq_none_iff]
    rintro ⟨name, i⟩ hmem
    obtain ⟨line, hline, hname⟩ := exists_line_of_mem_labels (List.mem_reverse.1 hmem)
    have hne : ".clear".toList ≠ name := fun heq => h line hline (heq ▸ hname)
    simpa using hne
  rw [ofLines_prologue_append, Listing.target?, Listing.append, List.reverse_append,
    List.lookup_append, hlater, Option.none_or]
  rfl

theorem stands_prologue {lines : List (List Char)}
    (hends : ∀ line ∈ lines, ∀ c ∈ line, isLineEnd c = false)
    (hclear : ∀ line ∈ lines, Statement.ofLine line ≠ .label ".clear".toList) (cells : Nat) :
    Stands (Code.ofListing none (Listing.ofLines
      (splitLines (ended (prologue cells ++ joinLines lines :: epilogue))))) 0
      (openingActions cells) := by
  rw [splitLines_whole hends, List.append_assoc]
  obtain ⟨rest, hrest⟩ : ∃ rest, lines ++ ((if lines = [] then [[]] else []) ++ epilogue) = rest :=
    ⟨_, rfl⟩
  have hfree : ∀ line ∈ rest, Statement.ofLine line ≠ .label ".clear".toList := by
    rw [← hrest]
    simp only [List.forall_mem_append]
    refine ⟨hclear, ?_, by decide⟩
    split <;> decide
  rw [hrest]
  have hsplit : (Listing.ofLines (prologue cells ++ rest)).instructions =
      [] ++ (opening cells).instructions ++ (Listing.ofLinesFrom 16 8 rest).instructions := by
    rw [ofLines_prologue_append]
    rfl
  exact stands_ofListing hsplit (actions_opening (target?_clear hfree) cells)

/-! ## Clearing -/

theorem getElem?_writeBytes_zeros {memory : Array UInt8} {base cells : Nat}
    (h : base + cells ≤ memory.size) (i : Nat) :
    (writeBytes memory base (List.replicate cells 0))[i]? =
      if base ≤ i ∧ i < base + cells then some 0 else memory[i]? := by
  rw [getElem?_writeBytes (by rwa [List.length_replicate]), List.length_replicate]
  refine ite_congr rfl (fun hi => ?_) fun _ => rfl
  rw [List.getElem?_replicate, if_pos (by omega)]

/-- The machine, followed until it comes to a place. Unlike a run, this does not look at the exit
status. -/
def Machine.upTo (code : Machine.Code) (place : Nat) : System State (Nat × Fault) where
  halted := fun s => place ≤ s.pc
  step := State.step code

theorem executes_upTo (code : Machine.Code) (place : Nat) (exitStatus : Option UInt8) :
    Executes (upTo code place) code place exitStatus :=
  ⟨rfl, fun s hpc _ => by simpa [upTo] using hpc⟩

/-- In four steps and four for each cell, the first instructions of a whole program come to the place
behind them. From any contents of the memory and the registers, as long as the stack pointer is at the
end of the memory, the last cells of the memory are then a tape of zeros to whose start the pointer and
the stack pointer point, and no other byte has changed. -/
theorem prologue_clears_tape {lines : List (List Char)} {cells : Nat} {s : State}
    (hends : ∀ line ∈ lines, ∀ c ∈ line, isLineEnd c = false)
    (hclear : ∀ line ∈ lines, Statement.ofLine line ≠ .label ".clear".toList)
    (hcells : 1 ≤ cells) (hroom : cells ≤ s.memory.size) (hsize : s.memory.size < 2 ^ 64)
    (hpc : s.pc = 0) (hstack : s.registers.get .rsp = s.memory.size) :
    ∃ text, Template.fill Template.bundled lines { stackSize := cells } = .ok text ∧
      ∃ t, (upTo (Code.ofListing none (Listing.ofLines (splitLines text))) 8).Steps (4 + 4 * cells) s t ∧
        t.pc = 8 ∧
        (∀ i, t.memory[i]? = if s.memory.size - cells ≤ i ∧ i < s.memory.size then some 0
          else s.memory[i]?) ∧
        t.registers.get .rbx = s.memory.size - cells ∧
        t.registers.get .rsp = s.memory.size - cells ∧ t.registers.get .rcx = 0 ∧
        t.output = s.output ∧ t.input = s.input ∧ t.exitStatus = s.exitStatus := by
  refine ⟨_, fill_bundled cells lines, ?_⟩
  obtain ⟨base, hbase⟩ : ∃ base, s.memory.size = base + cells := Nat.exists_eq_add_of_le' hroom
  rw [hbase] at hsize hstack ⊢
  rw [Nat.add_sub_cancel]
  obtain ⟨t, hsteps, ht, hend⟩ := steps_prologue (executes_upTo _ 8 _)
    (stands_prologue hends hclear cells) hcells hbase hstack hsize hpc
  refine ⟨t, hsteps, hend, fun i => ?_, ?_, ?_, ht.counter, ht.output, ht.input, ht.exitStatus⟩
  · rw [ht.memory, getElem?_writeBytes_zeros (Nat.le_of_eq hbase.symm)]
  · rw [ht.registers .rbx (by decide) (by decide)]
    simp
  · rw [ht.registers .rsp (by decide) (by decide)]
    simp

/-- A machine that has exited, with bytes on its stack, is taken through a program of one line. -/
theorem prologue_clears_tape_dirty :
    ∃ text, Template.fill Template.bundled ["\tnop".toList] { stackSize := (2 : Nat) } = .ok text ∧
      ∃ t, (upTo (Code.ofListing none (Listing.ofLines (splitLines text))) 8).Steps 12
          { memory := #[5, 6, 7], registers := (({} : Registers).set .rcx 9).set .rsp 3
            output := #[8], zeroFlag := true, exitStatus := some 1 } t ∧
        t.pc = 8 ∧ t.memory = #[5, 0, 0] ∧ t.registers.get .rbx = 1 ∧ t.output = #[8] ∧
        t.exitStatus = some 1 := by
  have hlines : ∀ line ∈ ["\tnop".toList], ∀ c ∈ line, isLineEnd c = false :=
    List.forall_mem_singleton.2 (forall_mem_of_all (by decide))
  obtain ⟨text, htext, t, hsteps, hpc, hmemory, hpointer, -, -, houtput, -, hexit⟩ :=
    prologue_clears_tape hlines (by decide) (show 1 ≤ 2 by decide)
      (s := { memory := #[5, 6, 7], registers := (({} : Registers).set .rcx 9).set .rsp 3
              output := #[8], zeroFlag := true, exitStatus := some 1 })
      (by decide) (by decide) rfl (by decide)
  refine ⟨text, htext, t, hsteps, hpc, ?_, hpointer, houtput, hexit⟩
  refine Array.ext_getElem? fun i => ?_
  rw [hmemory i]
  match i with
  | 0 | 1 | 2 => rfl
  | i + 3 => exact if_neg (show ¬(1 ≤ i + 3 ∧ i + 3 < 3) by omega)

end Brainfuck
