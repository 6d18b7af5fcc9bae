import Brainfuck.Proofs.StackDiscipline

/-!
# The buffers of outputs and the tape

Where a run of outputs stores the cells it prints, and what no state of a run has written.

* `Buffered` : the slots that code saves lie in what is reserved at their places (`buffered_block`);
* `Line.plain?`, `Instr.plain?` : the lines of instructions that do not jump stand in the listing at the
  places of these instructions (`map_plain?_instructionLines`);
* `exists_save` : an instruction that stores the cache is one that saves a slot;
* `step_save` : a step that saves a slot writes into the buffer below the tape;
* `through_of_exec` : a run that comes to its end leaves alone what lies in front of the buffers;
* `runLines_scratch` : the bytes that are still zero and the bytes that are stored in every state of a run
  of compiled lines.
-/

namespace Brainfuck

open Machine Codegen
open Interpreter (Session)

/-! ## Slots -/

/-- A slot that is saved lies in the buffer reserved at the place, and that has no more than `room`
bytes. -/
def Buffered (room : Nat) (code : List Instr) : Prop :=
  ∀ (i slot : Nat), code[i]? = some (.op (.save slot)) →
    (slot : Int) < reserved code i ∧ reserved code i ≤ room

variable {room : Nat}

theorem buffered_of_not_mem {code : List Instr} (h : ∀ slot : Nat, .op (.save slot) ∉ code) :
    Buffered room code :=
  fun _ slot hi => (h slot (List.mem_of_getElem? hi)).elim

theorem Buffered.append {xs ys : List Instr} (hx : Buffered room xs) (hy : Buffered room ys)
    (hbalanced : reserved xs xs.length = 0) : Buffered room (xs ++ ys) := by
  intro i slot h
  by_cases hi : i < xs.length
  · rw [List.getElem?_append_left hi] at h
    rw [reserved_append_left (Nat.le_of_lt hi)]
    exact hx i slot h
  · obtain ⟨j, rfl⟩ := Nat.exists_eq_add_of_le (Nat.le_of_not_lt hi)
    rw [List.getElem?_append_right (Nat.le_add_right _ _), Nat.add_sub_cancel_left] at h
    rw [reserved_append_right, hbalanced, Int.zero_add]
    exact hy j slot h

theorem Buffered.loop {body : List Instr} (h : Buffered room body) : Buffered room (loopCode body) := by
  unfold loopCode
  split
  · exact buffered_of_not_mem (by simp)
  · intro i slot hi
    rcases i with _ | _ | i
    · cases hi
    · cases hi
    · rcases getElem?_loop hi with hi | ⟨-, hback⟩
      · have hlt := (List.getElem?_eq_some_iff.1 hi).1
        rw [reserved_loop (Nat.le_of_lt hlt)]
        exact h i slot hi
      · contradiction

theorem not_save_rows (rows : List Row) (slot : Nat) : .save slot ∉ rows.flatMap Row.code := by
  intro h
  obtain ⟨r, -, h⟩ := List.mem_flatMap.1 h
  cases r <;>
  · rw [Row.code, adjustment] at h
    split at h <;> simp at h

theorem lt_of_save_mem_fill {slot first : Nat} {gaps : List (List Row)}
    (h : .save slot ∈ fill first gaps) : slot < first + gaps.length := by
  induction gaps generalizing first with
  | nil => contradiction
  | cons rows gaps ih =>
    rw [fill, List.mem_append, List.mem_cons, List.mem_cons] at h
    rw [List.length_cons]
    rcases h with h | h | h | h
    · exact (not_save_rows rows slot h).elim
    · contradiction
    · cases h
      omega
    · have := ih h
      omega

theorem buffered_print {gaps : List (List Row)} (hroom : gaps.length + 1 ≤ room) :
    Buffered room ((Batch.print gaps).code.map .op) := by
  intro i slot h
  rw [List.getElem?_map] at h
  obtain ⟨o, ho, hsave⟩ := Option.map_eq_some_iff.1 h
  cases hsave
  have hlt := (List.getElem?_eq_some_iff.1 ho).1
  have hpos : 0 < i := by
    rw [Nat.pos_iff_ne_zero]
    rintro rfl
    simp [Batch.code] at ho
  have hslot : slot < gaps.length + 1 := by
    have hmem := List.mem_of_getElem? ho
    simp only [Batch.code, List.mem_cons, List.mem_append, List.cons_append, reduceCtorEq,
      List.not_mem_nil, or_false, false_or] at hmem
    simpa using lt_of_save_mem_fill hmem
  rw [reserved_print hpos hlt]
  omega

/-- Only a run of outputs saves a slot. -/
theorem Batch.exists_print_of_save {b : Batch} {slot : Nat} (h : .save slot ∈ b.code) :
    ∃ gaps, b = .print gaps := by
  cases b with
  | print gaps => exact ⟨gaps, rfl⟩
  | row r =>
    have hrow := not_save_rows [r] slot
    rw [List.flatMap_singleton] at hrow
    exact absurd h hrow
  | read gaps =>
    simp only [Batch.code] at h
    split at h <;> simp at h

theorem buffered_batch {b : Batch} (h : b.Roomy room) : Buffered room (b.code.map .op) := by
  cases b with
  | print gaps => exact buffered_print h
  | row | read =>
    refine buffered_of_not_mem fun slot hmem => ?_
    obtain ⟨gaps, hgaps⟩ := Batch.exists_print_of_save (by simpa using hmem)
    contradiction

theorem buffered_block {b : Block} (h : b.All (·.Roomy room)) : Buffered room b.code := by
  induction b with
  | done => exact buffered_of_not_mem (by simp [Block.code])
  | batch b rest ih =>
    have hbalanced := (disciplined_batch b).balanced
    exact (buffered_batch h.1).append (ih h.2) hbalanced
  | loop body rest ihb ih =>
    have hbalanced := ((disciplined_block body).loop (linked_block body)).balanced
    exact (ihb h.1).loop.append (ih h.2) hbalanced

/-! ## Instructions that store the cache -/

def Instr.plain? (convention : Convention) : Instr → Option Line
  | op o => some (o.line convention)
  | _ => none

def Line.plain? : Line → Option Line
  | instruction mnemonic operands =>
    if Condition.ofMnemonic? mnemonic = none then some (instruction mnemonic operands) else none
  | _ => none

theorem Opcode.plain?_line (convention : Convention) (o : Opcode) :
    (o.line convention).plain? = some (o.line convention) := by
  rw [line, Line.plain?, if_pos o.condition_mnemonic]

theorem map_plain?_instructionLines (convention : Convention) (n : Nat) (b : Block) :
    (b.instructionLines convention n).map Line.plain? = b.code.map (Instr.plain? convention) :=
  Block.map_instructionLines (Opcode.plain?_line convention) (fun _ _ => rfl) (fun _ _ => rfl) n b

theorem exists_save {size : Int} {b : Block} {listing : Listing} {i : Nat} {x : Instruction}
    {target : List Char}
    (hlisting : listing.instructions.map Instruction.written =
      b.instructionLines { stackSize := size } 0)
    (hx : listing.instructions[i]? = some x) (hmnemonic : x.mnemonic = "mov".toList)
    (hoperands : x.operands = [target, "cl".toList]) :
    ∃ slot, b.code[i]? = some (.op (.save slot)) ∧ target = cell ("rsp+".toList ++ Text.hex slot) := by
  have hplain : x.written.plain? = some x.written := by
    rw [Instruction.written, Line.plain?, hmnemonic]
    rfl
  have hcode : (b.code.map (Instr.plain? { stackSize := size }))[i]? = some (some x.written) := by
    rw [← map_plain?_instructionLines _ 0, ← hlisting, List.getElem?_map, List.getElem?_map, hx, ← hplain]
    rfl
  rw [List.getElem?_map] at hcode
  obtain ⟨y, hy, hline⟩ := Option.map_eq_some_iff.1 hcode
  cases y with
  | leave | back => contradiction
  | op o =>
    rw [Instr.plain?, Instruction.written, hmnemonic, hoperands] at hline
    have hparts := Line.instruction.inj (Option.some.inj hline)
    cases o with
    | save slot => exact ⟨slot, hy, (List.cons.inj hparts.2).1.symm⟩
    | stack up | shift up | change up => cases up <;> simp [Opcode.mnemonic, Opcode.verb] at hparts
    | load | aimStack | aimTape | set | call | test =>
      simp [Opcode.mnemonic, Opcode.verb, Opcode.operands, cell, Text.hex] at hparts

/-! ## Runs -/

/-- A step that saves a slot writes into the buffer. -/
theorem step_save {instrs : List Instr} {code : Machine.Code} {base slot : Nat} {s t : State}
    (hcode : Holds code .rbx .rcx 0 instrs) (hbuffered : Buffered room instrs) (hroom : room ≤ base)
    (hbase : base < 2 ^ 64) (hlevel : Lowered base instrs s)
    (hsave : instrs[s.pc]? = some (.op (.save slot))) (ok : (system code).step s = .ok t) :
    ∃ address, base - room ≤ address ∧ address < base ∧
      s.place (Operand.read none (cell ("rsp+".toList ++ Text.hex slot))) = .ok (.memory address) ∧
      t.memory = s.memory.setIfInBounds address (UInt8.ofNat (s.registers.get .rcx)) := by
  have hdoes : Does code .rbx .rcx s.pc (.op (.save slot)) := by simpa using hcode.get hsave
  have hexec : (Opcode.save slot).exec .rbx .rcx s = .ok t := hdoes.exec_of_ok rfl ok
  obtain ⟨hlt, rfl⟩ := State.of_within hexec
  obtain ⟨hslot, hreserved⟩ := hbuffered s.pc slot hsave
  have hstack : (s.registers.get .rsp : Int) = base - reserved instrs s.pc := by
    rw [hlevel, word]
    omega
  refine ⟨s.registers.get .rsp + slot, by omega, by omega, ?_, rfl⟩
  rw [Operand.read_slot]
  exact (Opcode.value_of_resolve (by rw [Opcode.resolve_slot, if_pos hlt])).2

variable {emulator : Emulator} {cells : Nat} {session : Session} {input : List Int}

/-- The emulator comes to the end of the lines of a program through states in which nothing has been
written in front of the buffers. -/
theorem through_of_exec (hemulator : emulator.Standard cells)
    (hsession : session.settings.tapeLength = cells) {block : Block} {atEnd : Option UInt8} {n k : Nat}
    {st : Store} (hexec : Exec atEnd block.program (session.store input) n k (.ok st))
    (hroomy : block.All (·.Roomy room)) (hroom : room ≤ emulator.tapeBase)
    (hsupply : k ≤ (session.store input).input.length) {code : Machine.Code}
    (hcode : Holds code .rbx .rcx 0 block.code) (hsize : code.size = block.code.length) :
    ∃ m t, (system code).Through (Untouched (emulator.tapeBase - room)) m (emulator.initial input) t ∧
      (system code).halted t = true := by
  have hstart := hemulator.matches_initial hsession input
  have hblank : Untouched (emulator.tapeBase - room) (emulator.initial input) := by
    intro i hi
    have hlt : i < emulator.memorySize := by
      have := hemulator.memorySize_eq.1
      omega
    show (Array.replicate emulator.memorySize 0)[i]? = some 0
    rw [Array.getElem?_replicate, if_pos hlt]
  obtain ⟨m, t, hthrough, hpc, -, -⟩ := passing_of_exec (by omega) n block (Nat.le_refl n) hexec hstart
    hblank rfl hcode hroomy (.inl hsupply)
  exact ⟨m, t, hthrough, by simp [system, hsize, hpc]⟩

/-- While the emulator follows a run of the interpreter, in whatever state it is, nothing has been written
in front of the largest buffer, and an instruction that stores the cache is part of a run of outputs and
writes into its buffer, below the tape. -/
theorem runLines_scratch (hemulator : emulator.Standard cells)
    (hsession : session.settings.tapeLength = cells) {text : List Char} (htext : flaw? text = none)
    (houtputs : OutputsWithin room text) (hroom : room ≤ emulator.tapeBase) {turns : Nat}
    {output : Array UInt8} {after : Session}
    (hrun : session.run text input none turns = (.ok output, after))
    (hreads : session.readCount text input turns ≤ input.length) :
    ∃ lines, ({ convention := emulator.convention } : Compiler).lineTexts text = .ok lines ∧
      ∀ turns' s, (emulator.runLines lines input turns').2.state = s →
        (∀ address < emulator.tapeBase - room, s.memory[address]? = some 0) ∧
        ∀ x target, (Listing.ofLines lines).instructions[s.pc]? = some x →
          x.mnemonic = "mov".toList → x.operands = [target, emulator.convention.cacheRegister] →
          (∃ run, WhilePrinting emulator.convention (Listing.ofLines lines) text run s.pc) ∧
          ∃ address t, emulator.tapeBase - room ≤ address ∧ address < emulator.tapeBase ∧
            s.place (Operand.read none target) = .ok (.memory address) ∧
            (system (Code.ofListing none (Listing.ofLines lines))).step s = .ok t ∧
            t.memory = s.memory.setIfInBounds address (UInt8.ofNat (s.registers.get .rcx)) := by
  obtain ⟨p, rfl⟩ := flaw?_eq_none_iff.1 htext
  obtain ⟨b, rfl, hgen⟩ := exists_common_block p
  rw [hemulator.convention]
  obtain ⟨hgenerates, -, hall⟩ := hgen
    (show ({ convention := { stackSize := cells } } : Compiler).generator.rules = _ from rfl)
  refine ⟨_, lineTexts_program hgenerates, fun turns' s hs => ?_⟩
  obtain ⟨n, k, st, hexec, -, -, hcount⟩ :=
    Session.exec_of_run (by rw [hsession]; exact_mod_cast hemulator.positive) hrun 0
  have hsupply : k ≤ (session.store input).input.length := by
    rw [← hcount]
    simpa [Session.store, Session.readCount] using hreads
  have hnames := Convention.names_default cells
  obtain ⟨hcode, hsize⟩ := holds_lines hnames b
  have hlisting := instructions_ofLinesFrom hnames (isGenerated_block b 0) 1 0
  have hbase : emulator.tapeBase < 2 ^ 64 := by
    have hmemory := hemulator.memorySize_eq.1
    have hbound := hemulator.bound
    omega
  -- the state lies on the way to the end of the lines
  have hplain := emulator.furtherName_initial_default hemulator.convention input
  obtain ⟨m, last, hthrough, hhalted⟩ :=
    through_of_exec hemulator hsession hexec houtputs.roomy hroom hsupply hcode hsize
  obtain ⟨l, hle, hsteps⟩ : ∃ l ≤ m, (system _).Steps l (emulator.initial input) s := by
    rw [← hs, Emulator.runLines, Emulator.execute, hplain]
    exact hthrough.steps.drive hhalted turns'
  refine ⟨hthrough.of_steps hsteps hle, fun x target hx hmnemonic hoperands => ?_⟩
  -- what stores the cache saves a slot of the buffer reserved here
  obtain ⟨slot, hsave, rfl⟩ := exists_save hlisting hx hmnemonic hoperands
  have hbuffered : Buffered room b.code := buffered_block houtputs.roomy
  have hlevel : Lowered emulator.tapeBase b.code s :=
    (lowered_initial hemulator.convention hbase input b.code).steps hcode hsize (disciplined_block b) hsteps
  have hreserved : reserved b.code s.pc ≠ 0 := by
    have := (hbuffered s.pc slot hsave).1
    omega
  have hdoes := hcode.get hsave
  rw [Nat.zero_add] at hdoes
  obtain ⟨-, hexit, -, -⟩ := ready_of_steps hcode hsize (linked_block b) (.self rfl hplain) rfl hsteps
  obtain ⟨t, ok⟩ := hthrough.steps.exists_next hhalted hsteps (hdoes.running rfl hexit)
  obtain ⟨address, hge, hlt, hplace, hmemory⟩ := step_save hcode hbuffered hroom hbase hlevel hsave ok
  exact ⟨exists_whilePrinting hlisting hall hreserved, address, t, hge, hlt, hplace, ok, hmemory⟩

/-- The second of two outputs in a loop is saved between the two bytes that no output may use and the
tape. -/
theorem runLines_scratch_loop :
    ∃ lines, ({ convention := { stackSize := (2 : Nat) } } : Compiler).lineTexts "+[.>.<-]".toList =
        .ok lines ∧
      (∀ turns s, ((Emulator.ofSize 6 { stackSize := (2 : Nat) } (by decide) none).runLines lines []
        turns).2.state = s → ∀ address < 2, s.memory[address]? = some 0) ∧
      ∃ address, 2 ≤ address ∧ address < 4 ∧
        ((Emulator.ofSize 6 { stackSize := (2 : Nat) } (by decide) none).runLines lines [] 8).2.state.place
          (Operand.read none "[rsp+0x1]".toList) = .ok (.memory address) := by
  have hemulator : (Emulator.ofSize 6 { stackSize := (2 : Nat) } (by decide) none).Standard 2 :=
    ⟨rfl, by decide, by decide⟩
  have houtputs : OutputsWithin 2 "+[.>.<-]".toList := fun part hpart _ =>
    Nat.le_trans (hpart.sublist.count_le '.') (by decide)
  have hrun : (Session.blank ⟨(2 : Nat), some 0⟩).run "+[.>.<-]".toList [] none 20 =
      (.ok #[1, 0], ⟨⟨(2 : Nat), some 0⟩, #[0, 0], 0, #[1, 0]⟩) := by decide
  obtain ⟨lines, hlines, hstates⟩ := runLines_scratch hemulator rfl (by decide) houtputs (by decide) hrun
    (by decide)
  rw [hemulator.convention] at hlines
  have hget : ((({ convention := { stackSize := (2 : Nat) } } : Compiler).lineTexts
      "+[.>.<-]".toList).toOption.getD []) = lines := by
    rw [hlines]
    rfl
  have hnext : (Listing.ofLines ((({ convention := { stackSize := (2 : Nat) } } : Compiler).lineTexts
      "+[.>.<-]".toList).toOption.getD [])).instructions[((Emulator.ofSize 6 { stackSize := (2 : Nat) }
        (by decide) none).runLines ((({ convention := { stackSize := (2 : Nat) } } : Compiler).lineTexts
          "+[.>.<-]".toList).toOption.getD []) [] 8).2.state.pc]? =
      some ⟨10, "mov".toList, ["[rsp+0x1]".toList, "cl".toList]⟩ := by
    decide +kernel
  rw [hget] at hnext
  obtain ⟨-, address, t, hge, hlt, hplace, -⟩ := (hstates 8 _ rfl).2 _ _ hnext rfl rfl
  exact ⟨lines, hlines, fun turns s hs => (hstates turns s hs).1, address, hge, hlt, hplace⟩

end Brainfuck
