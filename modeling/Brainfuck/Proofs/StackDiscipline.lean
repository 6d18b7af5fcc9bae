import Brainfuck.Proofs.Acceptance
import Brainfuck.Proofs.ReservedBytes
import Brainfuck.Proofs.RoundTrip
import Brainfuck.Proofs.Safety
import Brainfuck.Proofs.WrittenLines

/-!
# The stack pointer of generated code

Along every path through the code, also one that goes around loops or overwrites the buffer of an
output, the place of the next instruction says where the stack pointer is.

* `Lowered` : the stack pointer lies below the tape by what is reserved at the place of the next
  instruction; a step keeps this (`Lowered.step`), and so does a run (`Lowered.steps`, `Lowered.drive`);
* `Line.reserves`, `Block.instructionLines` : what is reserved can be read off the written lines
  (`map_instructionLines`);
* `Block.around_of_reserved` : where something is reserved, a run of outputs is written around the place;
* `PrintsAt`, `WhilePrinting` : a run of outputs and its translation in a listing, and the places inside
  (`reserved_of_whilePrinting`, `exists_whilePrinting`);
* `runLines_stack` : the stack pointer in every state of a run of compiled lines.
-/

namespace Brainfuck

open Machine Codegen

/-! ## Runs -/

section

variable {s t : State}

theorem Machine.State.systemCall_stack (h : s.systemCall = .ok t) :
    t.registers.get .rsp = s.registers.get .rsp := by
  unfold State.systemCall at h
  split at h
  · simp only [State.readInput] at h
    split at h
    · contradiction
    · cases h
      simp [State.returning, State.advance]
  · simp only [State.writeOutput] at h
    split at h
    · contradiction
    · cases h
      simp [State.returning, State.advance]
  · cases h
    simp [State.exit, State.advance]
  · contradiction

theorem word_adjusted (level : Int) (up : Bool) (amount : Nat) :
    word (if up then (word level : Int) + amount else word level - amount) =
      word (level - (Opcode.stack up amount).reserves) := by
  unfold word Opcode.reserves
  cases up
  · simp only [Bool.false_eq_true, if_false]
    omega
  · simp only [if_true]
    omega

theorem Opcode.exec_stack {o : Opcode} (hset : ∀ value, o ≠ .set .rsp value)
    (h : o.exec .rbx .rcx s = .ok t) {level : Int} (hs : s.registers.get .rsp = word level) :
    t.registers.get .rsp = word (level - o.reserves) := by
  cases o with
  | stack up amount =>
    cases h
    rw [← word_adjusted, ← hs]
    simp [State.adjust]
  | set r value =>
    cases h
    have hr : r ≠ .rsp := fun hr => hset value (by rw [hr])
    simpa [reserves, hr] using hs
  | call =>
    rw [State.systemCall_stack h, hs]
    simp [reserves]
  | change | load | save | test =>
    simp only [exec] at h
    obtain ⟨-, rfl⟩ := State.of_within h
    simpa [reserves] using hs
  | shift | aimStack | aimTape =>
    cases h
    simpa [reserves, State.adjust] using hs

theorem Instr.exec_stack {x : Instr} (hset : ∀ value, x ≠ op (.set .rsp value))
    (h : x.exec .rbx .rcx s = .ok t) {level : Int} (hs : s.registers.get .rsp = word level) :
    t.pc ∈ x.next s.pc ∧ t.registers.get .rsp = word (level - x.reserves) := by
  cases x with
  | op o =>
    refine ⟨?_, o.exec_stack (fun value ho => hset value (by rw [ho])) h hs⟩
    rw [(Opcode.exec_frame h).1]
    exact List.mem_singleton_self _
  | leave distance =>
    cases h
    rw [reserves, Int.sub_zero]
    split
    · exact ⟨by simp [next], hs⟩
    · exact ⟨by simp [next, State.advance], hs⟩
  | back distance =>
    cases h
    rw [reserves, Int.sub_zero]
    exact ⟨by simp [next], hs⟩

theorem Machine.State.systemCall_failed {f : Fault} (h : s.systemCall = .error (f, t)) :
    t.pc = s.pc ∧ t.registers = s.registers := by
  unfold State.systemCall at h
  split at h
  · simp only [State.readInput] at h
    split at h
    · cases h
      exact ⟨rfl, rfl⟩
    · contradiction
  · simp only [State.writeOutput] at h
    split at h
    · cases h
      exact ⟨rfl, rfl⟩
    · contradiction
  · contradiction
  · cases h
    exact ⟨rfl, rfl⟩

theorem Instr.exec_failed {x : Instr} {f : Fault} (h : x.exec .rbx .rcx s = .error (f, t)) :
    t.pc = s.pc ∧ t.registers = s.registers := by
  cases x with
  | op o =>
    cases o with
    | call => exact State.systemCall_failed h
    | change | load | save | test =>
      rw [(State.within_error h).2]
      exact ⟨rfl, rfl⟩
    | _ => contradiction
  | leave distance => contradiction
  | back distance => contradiction

/-- The stack pointer lies below the tape by what is reserved at the place of the next instruction. -/
def Lowered (base : Nat) (instrs : List Instr) (s : State) : Prop :=
  s.registers.get .rsp = word (base - reserved instrs s.pc)

variable {instrs : List Instr} {code : Machine.Code} {base : Nat}

theorem exists_does (hcode : Holds code .rbx .rcx 0 instrs) (hsize : code.size = instrs.length)
    (running : (system code).halted s = false) :
    ∃ x, instrs[s.pc]? = some x ∧ Does code .rbx .rcx s.pc x := by
  have hlt : s.pc < instrs.length := by
    rw [← hsize]
    have hparts : ¬code.size ≤ s.pc ∧ s.exitStatus = none := by simpa [system] using running
    omega
  have hx := List.getElem?_eq_getElem hlt
  exact ⟨_, hx, by simpa using hcode.get hx⟩

theorem Lowered.step (hcode : Holds code .rbx .rcx 0 instrs) (hsize : code.size = instrs.length)
    (hinstrs : Disciplined instrs) (h : Lowered base instrs s) (running : (system code).halted s = false)
    (ok : (system code).step s = .ok t) : Lowered base instrs t := by
  obtain ⟨x, hx, hdoes⟩ := exists_does hcode hsize running
  have hset : ∀ value, x ≠ .op (.set .rsp value) := by
    rintro value rfl
    exact hinstrs.plain value (List.mem_of_getElem? hx)
  obtain ⟨hpc, hstack⟩ := x.exec_stack hset (hdoes.exec_of_ok rfl ok) h
  rw [Lowered, hstack, hinstrs.level s.pc x hx t.pc hpc, Int.sub_sub]

theorem Lowered.steps (hcode : Holds code .rbx .rcx 0 instrs) (hsize : code.size = instrs.length)
    (hinstrs : Disciplined instrs) {n : Nat} (hsteps : (system code).Steps n s t)
    (h : Lowered base instrs s) : Lowered base instrs t := by
  induction hsteps with
  | refl s => exact h
  | step running ok _ ih => exact ih (h.step hcode hsize hinstrs running ok)

/-- In whatever way a run has ended, the stack pointer fits the place of the next instruction. -/
theorem Lowered.drive (hcode : Holds code .rbx .rcx 0 instrs) (hsize : code.size = instrs.length)
    (hinstrs : Disciplined instrs) (h : Lowered base instrs s) (budget : Option Nat) (turns : Nat) :
    Lowered base instrs ((system code).drive budget turns 0 s).state := by
  generalize hrun : (system code).drive budget turns 0 s = run
  obtain ⟨t, k, ending⟩ := run
  obtain ⟨n, u, hsteps, -, -, hend⟩ := System.steps_of_drive hrun
  have hu := h.steps hcode hsize hinstrs hsteps
  cases ending with
  | failed e =>
    obtain ⟨running, failed, -⟩ := hend
    obtain ⟨x, -, hdoes⟩ := exists_does hcode hsize running
    obtain ⟨f, hexec⟩ := hdoes.exec_of_error rfl failed
    obtain ⟨hpc, hregisters⟩ := x.exec_failed hexec
    have hlevel : t.registers.get .rsp = word (base - reserved instrs t.pc) := by
      rw [hregisters, hpc]
      exact hu
    exact hlevel
  | halted =>
    obtain ⟨-, rfl⟩ := hend
    exact hu
  | exhausted =>
    obtain ⟨-, -, rfl⟩ := hend
    exact hu
  | paused =>
    obtain ⟨-, rfl⟩ := hend
    exact hu

end

/-! ## The written form -/

def Line.reserves : Line → Int
  | instruction mnemonic [target, amount] =>
    if target ≠ "rsp".toList then 0
    else if mnemonic = "sub".toList then (Text.literal? amount).getD 0
    else if mnemonic = "add".toList then -(Text.literal? amount).getD 0
    else 0
  | _ => 0

theorem Opcode.reserves_line (size : Int) (o : Opcode) :
    (o.line { stackSize := size }).reserves = o.reserves := by
  cases o with
  | stack up amount =>
    cases up <;> simp [line, mnemonic, verb, operands, Line.reserves, reserves, Text.literal?_hex]
  | set r value => simp [line, mnemonic, verb, operands, Line.reserves, reserves]
  | _ => rfl

namespace Block

/-- The written form without its labels. -/
def instructionLines (convention : Convention) (n : Nat) (b : Block) : List Line :=
  (b.lines convention n).filter (·.label?.isNone)

theorem instructionLines_batch (convention : Convention) (n : Nat) (b : Batch) (rest : Block) :
    (batch b rest).instructionLines convention n =
      b.code.map (Opcode.line convention) ++ rest.instructionLines convention n := by
  have hall : (b.code.map (Opcode.line convention)).filter (·.label?.isNone) =
      b.code.map (Opcode.line convention) := by
    rw [List.filter_eq_self]
    intro l hl
    obtain ⟨o, -, rfl⟩ := List.mem_map.1 hl
    rfl
  rw [instructionLines, lines, List.filter_append, hall, instructionLines]

theorem instructionLines_loop_nil (convention : Convention) (n : Nat) {body : Block} (rest : Block)
    (h : body.code = []) :
    (loop body rest).instructionLines convention n = rest.instructionLines convention n := by
  rw [instructionLines, lines, if_pos h, instructionLines]

theorem instructionLines_loop (convention : Convention) (n : Nat) {body : Block} (rest : Block)
    (h : body.code ≠ []) :
    (loop body rest).instructionLines convention n =
      [Opcode.test.line convention, jumpTo true (n + body.labels)] ++
        body.instructionLines convention n ++ [jumpTo false (n + body.labels)] ++
        rest.instructionLines convention (n + body.labels + 1) := by
  rw [instructionLines, lines, if_neg h, loopLines_eq]
  simp [instructionLines, Line.label?, jumpTo, op, Opcode.line]

/-- What is read off the written form is what is read off the code, if the two agree on single
instructions. -/
theorem map_instructionLines {α : Type} {convention : Convention} {f : Line → α} {g : Instr → α}
    (hop : ∀ o, f (o.line convention) = g (.op o))
    (hleave : ∀ i distance, f (jumpTo true i) = g (.leave distance))
    (hback : ∀ i distance, f (jumpTo false i) = g (.back distance)) (n : Nat) (b : Block) :
    (b.instructionLines convention n).map f = b.code.map g := by
  induction b generalizing n with
  | done => rfl
  | batch b rest ih =>
    rw [instructionLines_batch, code, List.map_append, List.map_append, ih, List.map_map, List.map_map]
    congr 1
    exact List.map_congr_left fun o _ => hop o
  | loop body rest ihb ih =>
    by_cases hnil : body.code = []
    · rw [instructionLines_loop_nil _ _ _ hnil, ih, code, loopCode, if_pos hnil, List.nil_append]
    · rw [instructionLines_loop _ _ _ hnil, code, loopCode_append hnil]
      simp only [List.map_append, List.map_cons, ihb, ih, hop, hleave _ (body.code.length + 2),
        hback _ (body.code.length + 2), List.cons_append, List.nil_append, List.append_assoc]

theorem map_reserves_instructionLines (size : Int) (n : Nat) (b : Block) :
    (b.instructionLines { stackSize := size } n).map Line.reserves = b.code.map Instr.reserves :=
  map_instructionLines (Opcode.reserves_line size) (fun _ _ => rfl) (fun _ _ => rfl) n b

theorem length_instructionLines (size : Int) (n : Nat) (b : Block) :
    (b.instructionLines { stackSize := size } n).length = b.code.length := by
  have hlength := congrArg List.length (b.map_reserves_instructionLines size n)
  rwa [List.length_map, List.length_map] at hlength

/-- Among given lines of a text, those of a run of outputs with a property stand around a place. -/
def Around (P : Batch → Prop) (size : Int) (lines : List Line) (text : List Char) (i : Nat) : Prop :=
  ∃ (gaps : List (List Row)) (before after : List Line),
    lines = before ++ (Batch.print gaps).code.map (Opcode.line { stackSize := size }) ++ after ∧
      before.length < i ∧ i < before.length + (Batch.print gaps).code.length ∧
      (Batch.print gaps).text <:+: text ∧ P (.print gaps)

theorem Around.within {P : Batch → Prop} {size : Int} {lines : List Line} {text text' : List Char}
    {i : Nat} (h : Around P size lines text i) (htext : text <:+: text') (xs ys : List Line) :
    Around P size (xs ++ lines ++ ys) text' (xs.length + i) := by
  obtain ⟨gaps, before, after, rfl, hlt, hlt', hpart, hP⟩ := h
  refine ⟨gaps, xs ++ before, after ++ ys, by simp only [List.append_assoc], ?_, ?_,
    hpart.trans htext, hP⟩
  · rw [List.length_append]
    omega
  · rw [List.length_append]
    omega

theorem around_batch {P : Batch → Prop} {size : Int} {b : Batch} (h : P b) {i : Nat}
    (hi : reserved (b.code.map .op) i ≠ 0) (hle : i ≤ b.code.length) :
    Around P size (b.code.map (Opcode.line { stackSize := size })) b.text i := by
  obtain ⟨gaps, rfl⟩ : ∃ gaps, b = .print gaps := by
    by_contra hne
    exact hi (reserved_of_idle (b.idle_code fun gaps hb => hne ⟨gaps, hb⟩) i)
  have hpos : i ≠ 0 := by
    rintro rfl
    exact hi rfl
  have hend : i ≠ (Batch.print gaps).code.length := by
    rintro rfl
    exact hi (reserved_print_end gaps)
  refine ⟨gaps, [], [], by simp, Nat.pos_of_ne_zero hpos, ?_, List.infix_rfl, h⟩
  rw [List.length_nil]
  omega

/-- Where something is reserved, a run of outputs is written around the place. -/
theorem around_of_reserved {P : Batch → Prop} {size : Int} {b : Block} (h : b.All P) (n : Nat) {i : Nat}
    (hi : reserved b.code i ≠ 0) :
    Around P size (b.instructionLines { stackSize := size } n) b.program.text i := by
  induction b generalizing n i with
  | done => exact absurd (by simp [reserved, code]) hi
  | batch b rest ih =>
    have htext : (batch b rest).program.text = b.text ++ rest.program.text := Program.text_after _ _
    rw [instructionLines_batch, htext]
    rw [code] at hi
    by_cases hle : i ≤ (b.code.map Instr.op).length
    · rw [reserved_append_left hle] at hi
      have hfirst : Around P size _ b.text i := around_batch h.1 hi (by simpa using hle)
      simpa using hfirst.within (List.prefix_append _ _).isInfix [] _
    · obtain ⟨j, rfl⟩ := Nat.exists_eq_add_of_le (Nat.le_of_not_le hle)
      rw [reserved_append_right, (disciplined_batch b).balanced, Int.zero_add] at hi
      have hrest := (ih h.2 n hi).within (List.suffix_append b.text _).isInfix
        (b.code.map (Opcode.line { stackSize := size })) []
      simpa using hrest
  | loop body rest ihb ih =>
    have hbody : body.program.text <:+: (loop body rest).program.text :=
      ⟨['['], ']' :: rest.program.text, rfl⟩
    have hrest : rest.program.text <:+: (loop body rest).program.text :=
      ⟨'[' :: body.program.text ++ [']'], [], by simp [program, Program.text]⟩
    rw [code] at hi
    by_cases hnil : body.code = []
    · rw [loopCode, if_pos hnil, List.nil_append] at hi
      rw [instructionLines_loop_nil _ _ _ hnil]
      simpa using (ih h.2 n hi).within hrest [] []
    rw [instructionLines_loop _ _ _ hnil]
    by_cases hle : i ≤ (loopCode body.code).length
    · rw [reserved_append_left hle, loopCode, if_neg hnil] at hi
      rw [loopCode, if_neg hnil] at hle
      rcases i with _ | _ | j
      · exact absurd rfl hi
      · exact absurd rfl hi
      · by_cases hj : j ≤ body.code.length
        · rw [reserved_loop hj] at hi
          rw [List.append_assoc, Nat.add_comm j 2]
          exact (ihb h.1 n hi).within hbody [_, _] _
        · have hend : j = body.code.length + 1 := by
            simp only [List.length_append, List.length_cons, List.length_nil] at hle
            omega
          rw [hend] at hi
          exact absurd (reserved_loop_end (disciplined_block body).balanced _) hi
    · obtain ⟨j, rfl⟩ := Nat.exists_eq_add_of_le (Nat.le_of_not_le hle)
      have hloop := ((disciplined_block body).loop (linked_block body)).balanced
      rw [reserved_append_right, hloop, Int.zero_add] at hi
      have hlength : (loopCode body.code).length =
          ([Opcode.test.line { stackSize := size }, jumpTo true (n + body.labels)] ++
            body.instructionLines { stackSize := size } n ++ [jumpTo false (n + body.labels)]).length := by
        simp only [loopCode, if_neg hnil, List.length_append, List.length_cons, List.length_nil,
          body.length_instructionLines size n]
        omega
      have hlast := (ih h.2 (n + body.labels + 1) hi).within hrest
        ([Opcode.test.line { stackSize := size }, jumpTo true (n + body.labels)] ++
          body.instructionLines { stackSize := size } n ++ [jumpTo false (n + body.labels)]) []
      rwa [List.append_nil, ← hlength] at hlast

end Block

/-! ## Runs of outputs in a listing -/

def printLines (convention : Convention) (run : List Char) : Except Codegen.Failure (List Line) :=
  ((({ convention } : Generator).translate .print run).run.run {}).1

/-- A run of outputs stands in the text, and its translation stands in the listing, from the instruction
that reserves its buffer to the one that gives it back. -/
structure PrintsAt (convention : Convention) (listing : Listing) (text run : List Char)
    (first last : Nat) : Prop where
  part : run <:+: text
  whole : printRun? run = some run
  translated : ∃ lines, printLines convention run = .ok lines ∧ last + 1 = first + lines.length ∧
    lines <+: (listing.instructions.map Instruction.written).drop first

/-- A place lies behind the instruction that reserves the buffer of a run of outputs, and not behind
the one that gives it back. -/
def WhilePrinting (convention : Convention) (listing : Listing) (text run : List Char) (i : Nat) : Prop :=
  ∃ first last, PrintsAt convention listing text run first last ∧ first < i ∧ i ≤ last

theorem Batch.Translated.printLines_eq {convention : Convention} {gaps : List (List Row)}
    (h : (Batch.print gaps).Translated { convention }) :
    printLines convention (Batch.print gaps).text =
      .ok ((Batch.print gaps).code.map (Opcode.line convention)) := by
  obtain ⟨pieces, hrun⟩ := h ((Batch.print gaps).text.length + 1) 0
    (by rw [Batch.text, List.length_map]; omega) #[]
  exact congrArg Prod.fst hrun

theorem exists_print_of_printRun? {run : List Char} (h : printRun? run = some run) :
    ∃ gaps : List (List Row), (Batch.print gaps).text = run ∧
      ∀ {generator : Generator}, generator.rules = Rule.standard →
        (Batch.print gaps).Translated generator := by
  obtain ⟨p, hp⟩ := sentence_iff_exists_text.1 (printRun?_eq_some h).2.2
  obtain ⟨rest, rfl⟩ : ∃ rest, p = .command .output rest := by
    subst hp
    cases p with
    | done => contradiction
    | loop body rest => contradiction
    | command c rest => cases c <;> first | contradiction | exact ⟨rest, rfl⟩
  obtain ⟨gaps, -, hsilent, -, hrun⟩ := printRun?_text rest
  obtain ⟨rowss, hcommands, htranslated⟩ := exists_print hsilent fun gap _ => by
    obtain ⟨b, hb, hgen⟩ := exists_common_block (.after gap .done)
    exact ⟨b, hb, fun hrules => (hgen hrules).1⟩
  refine ⟨rowss, ?_, htranslated⟩
  rw [hp, h] at hrun
  rw [Batch.text, hcommands]
  exact (Option.some.inj hrun).symm

theorem printRun?_print (gaps : List (List Row)) :
    printRun? (Batch.print gaps).text = some (Batch.print gaps).text := by
  have htake : ((Batch.print gaps).text.takeWhile fun c => c == '.' || isSilent c) =
      (Batch.print gaps).text := by
    rw [List.takeWhile_eq_self_iff]
    intro c hc
    rcases mem_text_print hc with rfl | hsilent
    · rfl
    · rw [hsilent, Bool.or_true]
  have hlast : (Batch.print gaps).commands.getLast? = some .output := by
    rcases List.eq_nil_or_concat gaps with rfl | ⟨gaps, rows, rfl⟩
    · rfl
    · simp [Batch.commands, printed, List.getLast?_cons]
  have hdrop := dropEndWhile_printed hlast (show ∀ c ∈ ([] : List Command), _ by simp)
  rw [List.append_nil] at hdrop
  rw [text_print] at htake
  rw [text_print, printRun?, htake, ← text_print]
  exact congrArg some hdrop

section

variable {size : Int} {b : Block} {listing : Listing} {i : Nat}

/-- Behind the instruction that reserves the buffer of a run of outputs, and up to the one that gives it
back, a byte is reserved for each output. -/
theorem reserved_of_whilePrinting {text run : List Char}
    (hlisting : listing.instructions.map Instruction.written =
      b.instructionLines { stackSize := size } 0)
    (h : WhilePrinting { stackSize := size } listing text run i) :
    reserved b.code i = run.count '.' := by
  obtain ⟨first, last, ⟨-, hwhole, lines, hlines, hlast, after, hafter⟩, hlt, hle⟩ := h
  obtain ⟨gaps, rfl, htranslated⟩ := exists_print_of_printRun? hwhole
  rw [(htranslated rfl).printLines_eq] at hlines
  cases hlines
  rw [List.length_map] at hlast
  obtain ⟨j, rfl⟩ := Nat.exists_eq_add_of_le (Nat.le_of_lt hlt)
  -- what the code reserves from the first instruction on is what the run reserves
  obtain ⟨rest, hrest⟩ : ∃ rest, b.code.drop first = rest := ⟨_, rfl⟩
  have hsame : rest.map Instr.reserves =
      ((Batch.print gaps).code.map Instr.op).map Instr.reserves ++ after.map Line.reserves := by
    rw [← hrest, List.map_drop, ← b.map_reserves_instructionLines size 0, ← List.map_drop, ← hlisting,
      ← hafter, List.map_append, List.map_map, List.map_map]
    congr 1
    exact List.map_congr_left fun o _ => o.reserves_line size
  have hmiddle : reserved rest j = (gaps.length + 1 : Nat) := by
    rw [← reserved_print (show 0 < j by omega) (show j < (Batch.print gaps).code.length by omega),
      reserved, hsame, List.take_append_of_le_length (by simp; omega), reserved]
  have hbefore : reserved b.code first = 0 := by
    rw [code_print] at hsame
    cases hcons : rest with
    | nil =>
      rw [hcons] at hsame
      contradiction
    | cons x xs =>
      rw [hcons] at hsame
      have hx : x.reserves = (gaps.length + 1 : Nat) := (List.cons.inj hsame).1
      refine (disciplined_block b).fresh first x ?_ (by rw [hx]; omega)
      rw [← Nat.add_zero first, ← List.getElem?_drop, hrest, hcons]
      rfl
  rw [reserved_add, hrest, hbefore, Int.zero_add, hmiddle]
  exact congrArg Int.ofNat (count_printed ([] :: gaps)).symm

/-- Where something is reserved, a run of outputs is being printed. -/
theorem exists_whilePrinting
    (hlisting : listing.instructions.map Instruction.written =
      b.instructionLines { stackSize := size } 0)
    (hall : b.All (Batch.Translated { convention := { stackSize := size } }))
    (hi : reserved b.code i ≠ 0) :
    ∃ run, WhilePrinting { stackSize := size } listing b.program.text run i := by
  obtain ⟨gaps, before, after, hlines, hlt, hlt', hpart, htranslated⟩ :=
    Block.around_of_reserved hall 0 hi
  refine ⟨(Batch.print gaps).text, before.length, before.length + (Batch.print gaps).code.length - 1,
    ⟨hpart, printRun?_print gaps, _, htranslated.printLines_eq, ?_, ?_⟩, hlt, by omega⟩
  · rw [List.length_map]
    omega
  · rw [hlisting, hlines, List.append_assoc, List.drop_left]
    exact List.prefix_append _ _

end

/-! ## Runs of the emulator -/

variable {emulator : Emulator} {size : Int}

theorem lowered_initial (hemulator : emulator.convention = { stackSize := size })
    (hbase : emulator.tapeBase < 2 ^ 64) (input : List Int) (instrs : List Instr) :
    Lowered emulator.tapeBase instrs (emulator.initial input) := by
  have hpc : (emulator.initial input).pc = 0 := rfl
  rw [Lowered, emulator.registers_initial_default hemulator, hpc, reserved_zero, Int.sub_zero,
    word_of_lt hbase]
  simp

/-- In every state of a run of compiled lines, the place of the next instruction says where the stack
pointer is: while a run of outputs is being printed, as many bytes below the tape as the run has outputs,
and at the tape everywhere else. So it is at the tape when the lines have come to their end. -/
theorem runLines_stack (hemulator : emulator.convention = { stackSize := size })
    (hbase : emulator.tapeBase < 2 ^ 64) (declared : Int) {text : List Char} (htext : flaw? text = none)
    (input : List Int) :
    ∃ lines, ({ convention := { stackSize := declared } } : Compiler).lineTexts text = .ok lines ∧
      ∀ turns s, (emulator.runLines lines input turns).2.state = s →
        (∀ run, WhilePrinting { stackSize := declared } (Listing.ofLines lines) text run s.pc →
          s.registers.get .rsp = word (emulator.tapeBase - run.count '.')) ∧
        ((¬∃ run, WhilePrinting { stackSize := declared } (Listing.ofLines lines) text run s.pc) →
          s.registers.get .rsp = emulator.tapeBase) ∧
        ∀ result, (emulator.runLines lines input turns).1 = .ok result →
          s.registers.get .rsp = emulator.tapeBase := by
  obtain ⟨p, rfl⟩ := flaw?_eq_none_iff.1 htext
  obtain ⟨b, rfl, hgen⟩ := exists_common_block p
  obtain ⟨hgenerates, -, hall⟩ := hgen
    (show ({ convention := { stackSize := declared } } : Compiler).generator.rules = _ from rfl)
  refine ⟨_, lineTexts_program hgenerates, fun turns s hs => ?_⟩
  have hnames := Convention.names_default declared
  obtain ⟨hcode, hsize⟩ := holds_lines hnames b
  have hlisting := instructions_ofLinesFrom hnames (isGenerated_block b 0) 1 0
  have hplain := emulator.furtherName_initial_default hemulator input
  have hstart := lowered_initial hemulator hbase input b.code
  have hlevel : Lowered emulator.tapeBase b.code s := by
    rw [← hs]
    have hdrive := hstart.drive hcode hsize (disciplined_block b) (stepBudget emulator.limit) turns
    rw [← hplain] at hdrive
    exact hdrive
  have hzero (h : reserved b.code s.pc = 0) : s.registers.get .rsp = emulator.tapeBase := by
    rw [hlevel, h, Int.sub_zero, word_of_lt hbase]
  refine ⟨fun run hrun => ?_, fun hnone => hzero ?_, fun result hresult => hzero ?_⟩
  · rw [hlevel, reserved_of_whilePrinting hlisting hrun]
  · by_contra hreserved
    exact hnone (exists_whilePrinting hlisting hall hreserved)
  · obtain ⟨t, k, hrun, -⟩ := Emulator.outcome_eq_ok hresult
    obtain ⟨hsteps, hhalted, -⟩ := Emulator.execute_halted_iff.1 ⟨turns, hrun⟩
    rw [hplain] at hsteps hhalted
    obtain ⟨hle, hexit, -, -⟩ :=
      ready_of_steps hcode hsize (linked_block b) (.self rfl hplain) rfl hsteps
    have hge : b.code.length ≤ t.pc := by
      rw [← hsize]
      simpa [system, hexit] using hhalted
    have hst : s = t := by rw [← hs, Emulator.runLines, hrun]
    rw [hst, Nat.le_antisymm hle hge]
    exact (disciplined_block b).balanced

/-- Two bytes are printed in a loop. When the fifth instruction has been executed, the buffer takes all
of the memory in front of the tape, and in the end none of it. -/
theorem runLines_stack_loop :
    ∃ lines, ({ convention := { stackSize := 2 } } : Compiler).lineTexts "+[.>.<-]".toList = .ok lines ∧
      ((Emulator.ofSize 4 { stackSize := 2 } (by decide) none).runLines lines [] 5).2.state.registers.get
        .rsp = 0 ∧
      ∃ result, ((Emulator.ofSize 4 { stackSize := 2 } (by decide) none).runLines lines [] 50).1 =
          .ok result ∧
        ((Emulator.ofSize 4 { stackSize := 2 } (by decide) none).runLines lines [] 50).2.state.registers.get
          .rsp = 2 := by
  obtain ⟨lines, hlines, hstack⟩ := runLines_stack
    (show (Emulator.ofSize 4 { stackSize := 2 } (by decide) none).convention = { stackSize := 2 } from rfl)
    (by decide) 2 (show flaw? "+[.>.<-]".toList = none by decide) []
  have hget : ((({ convention := { stackSize := 2 } } : Compiler).lineTexts
      "+[.>.<-]".toList).toOption.getD []) = lines := by
    rw [hlines]
    rfl
  have hpc : ((Emulator.ofSize 4 { stackSize := 2 } (by decide) none).runLines
      ((({ convention := { stackSize := 2 } } : Compiler).lineTexts
        "+[.>.<-]".toList).toOption.getD []) [] 5).2.state.pc = 5 := by decide +kernel
  have hprefix : (printLines { stackSize := 2 } ".>.".toList).toOption.getD [] <+:
      ((Listing.ofLines ((({ convention := { stackSize := 2 } } : Compiler).lineTexts
        "+[.>.<-]".toList).toOption.getD [])).instructions.map Instruction.written).drop 3 := by
    decide +kernel
  have hresult : ((Emulator.ofSize 4 { stackSize := 2 } (by decide) none).runLines
      ((({ convention := { stackSize := 2 } } : Compiler).lineTexts
        "+[.>.<-]".toList).toOption.getD []) [] 50).1 = .ok ⟨#[1, 0], #[0, 0], 0, 20, none⟩ := by
    decide +kernel
  rw [hget] at hpc hprefix hresult
  have hprints : PrintsAt { stackSize := 2 } (Listing.ofLines lines) "+[.>.<-]".toList ".>.".toList 3 14 :=
    ⟨⟨"+[".toList, "<-]".toList, rfl⟩, by decide, _, by decide +kernel, by decide +kernel, hprefix⟩
  refine ⟨lines, hlines, ?_, _, hresult, (hstack 50 _ rfl).2.2 _ hresult⟩
  exact (hstack 5 _ rfl).1 ".>.".toList ⟨3, 14, hprints, by omega, by omega⟩

end Brainfuck
