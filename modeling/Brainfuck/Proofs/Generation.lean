import Brainfuck.Compiler
import Brainfuck.Proofs.Recognition

/-!
# The generated lines

* `Gives x n value n'` : code generation that starts with label number `n` succeeds with a value and
  leaves `n'` as the next number (`Gives.pure`, `Gives.bind`);
* `run_bind_of_ok`, `exists_of_bind` : code generation in two parts, from any progress on;
* `gives_row`, `gives_print`, `gives_read` : the rules translate a batch into its instructions;
* `Generates generator b` : the lines that the generator makes of a block's program are the written
  form of the block;
* `exists_common_block`, `exists_block` : every program is that of such a block, in which the body of
  each loop is one, too, and in which each batch is translated by its rule (`Batch.Translated`);
* `lines_program`, `lineTexts_program` : the lines of a program, and how they are written.
-/

namespace Brainfuck

open Codegen

variable {α β : Type}

/-- Code generation from label number `n` on succeeds, and goes on with number `n'`. -/
def Gives (x : Gen α) (n : Nat) (value : α) (n' : Nat) : Prop :=
  ∀ pieces, ∃ pieces', x.run.run ⟨n, pieces⟩ = (.ok value, ⟨n', pieces'⟩)

theorem Gives.pure (n : Nat) (a : α) : Gives (pure a) n a n := fun pieces => ⟨pieces, rfl⟩

theorem run_bind_of_ok {x : Gen α} {before between : Progress} {a : α}
    (h : x.run.run before = (.ok a, between)) (f : α → Gen β) :
    (x >>= f).run.run before = (f a).run.run between := by
  rw [ExceptT.run_bind, StateT.run_bind, h]
  rfl

theorem exists_of_bind {x : Gen α} {f : α → Gen β} {before after : Progress} {b : β}
    (h : (x >>= f).run.run before = (.ok b, after)) :
    ∃ a between, x.run.run before = (.ok a, between) ∧ (f a).run.run between = (.ok b, after) := by
  rw [ExceptT.run_bind, StateT.run_bind] at h
  generalize x.run.run before = outcome at h ⊢
  obtain ⟨result, between⟩ := outcome
  cases result with
  | error failure => cases h
  | ok a => exact ⟨a, between, rfl, h⟩

theorem Gives.bind {x : Gen α} {f : α → Gen β} {a : α} {b : β} {n m k : Nat} (hx : Gives x n a m)
    (hf : Gives (f a) m b k) : Gives (x >>= f) n b k := by
  intro pieces
  obtain ⟨pieces', hx⟩ := hx pieces
  obtain ⟨pieces'', hf⟩ := hf pieces'
  exact ⟨pieces'', (run_bind_of_ok hx f).trans hf⟩

theorem gives_notePiece (piece : Codegen.Piece) (n : Nat) : Gives (notePiece piece) n () n :=
  fun pieces => ⟨pieces.push piece, rfl⟩

theorem gives_freshLabel (n : Nat) : Gives freshLabel n n (n + 1) := fun pieces => ⟨pieces, rfl⟩

theorem gives_generatePieces {rules : List Rule} {translate : Rule → List Char → Gen (List Line)}
    {c : Char} {s piece rest : List Char} {rule : Rule} {lines others : List Line}
    {n m k fuel offset : Nat} (hs : c :: s = piece ++ rest)
    (hselect : select rules (c :: s) = .ok (some ⟨piece, rule⟩))
    (hpiece : Gives (translate rule piece) n lines m)
    (hrest : Gives (generatePieces rules translate fuel (offset + piece.length) rest) m others k) :
    Gives (generatePieces rules translate (fuel + 1) offset (c :: s)) n (lines ++ others) k := by
  have hdrop : (c :: s).drop piece.length = rest := by rw [hs, List.drop_left]
  rw [generatePieces, hselect]
  refine (gives_notePiece ⟨rule.name, piece.length, offset⟩ n).bind (hpiece.bind ?_)
  rw [hdrop]
  exact hrest.bind (.pure k _)

/-! ## Rows -/

theorem netCount_map {up down : Char} (h : down ≠ up) (ups : List Bool) :
    netCount [up] [down] (ups.map fun u => if u then up else down) = net ups := by
  induction ups with
  | nil => rfl
  | cons u ups ih =>
    have hunit : unitCount [up] [down] (if u then up else down) = if u then 1 else -1 := by
      cases u <;> simp [unitCount, isAlone, h]
    rw [netCount, net] at ih ⊢
    rw [List.map_cons, List.foldr_cons, ih, hunit, List.map_cons, List.sum_cons]

theorem map_line_adjustment {convention : Convention} {operand : List Char}
    {make : Bool → Nat → Opcode}
    (h : ∀ up amount, (make up amount).line convention =
      op (if up then "add" else "sub") [operand, Text.hex amount]) (delta : Int) (amount : Nat) :
    (adjustment make delta amount).map (Opcode.line convention) = shiftBy operand delta amount := by
  unfold adjustment shiftBy
  split
  · rfl
  · simp [h]

theorem map_char_ups (c d : Command) (ups : List Bool) :
    (ups.map fun up => if up then c else d).map Command.char =
      ups.map fun up => if up then c.char else d.char := by
  rw [List.map_map]
  congr 1
  funext up
  cases up <;> rfl

theorem gives_row (convention : Convention) (generate : List Char → Gen (List Line)) (r : Row)
    (n : Nat) :
    Gives (r.rule.translate convention generate (Batch.row r).text) n
      (r.code.map (Opcode.line convention)) n := by
  cases r with
  | change ups =>
    have hnet := netCount_map (by decide : Command.decrement.char ≠ Command.increment.char) ups
    rw [Row.code, map_line_adjustment fun _ _ => rfl, ← hnet, ← map_char_ups]
    exact .pure n _
  | shift ups =>
    have hnet := netCount_map (by decide : Command.left.char ≠ Command.right.char) ups
    rw [Row.code, map_line_adjustment fun _ _ => rfl, ← hnet, ← map_char_ups]
    exact .pure n _

/-! ## Outputs -/

theorem isolate_cons_self (c : Char) (s : List Char) :
    isolate [c] (c :: s) = [c] :: isolate [c] s := by
  rw [isolate]
  split
  · rename_i h
    rw [h]
  · rename_i h
    rw [h, if_pos (by simp [isAlone])]

theorem isolate_append {c : Char} {gap : List Char} (h : c ∉ gap) (s : List Char) :
    isolate [c] (gap ++ c :: s) = (if gap = [] then [] else [gap]) ++ [c] :: isolate [c] s := by
  induction gap with
  | nil => exact isolate_cons_self c s
  | cons d gap ih =>
    have hd : d ≠ c := fun e => h (by simp [e])
    have hgap : c ∉ gap := fun hc => h (List.mem_cons_of_mem d hc)
    rw [List.cons_append, isolate, ih hgap]
    cases gap with
    | nil => simp [isAlone]
    | cons e gap =>
      have he : e ≠ c := fun e' => hgap (by simp [e'])
      simp [isAlone, hd, he]

/-- Generation of the text of rows gives their instructions. -/
def GivesRows (convention : Convention) (generate : List Char → Gen (List Line)) (rows : List Row) :
    Prop :=
  ∀ n, Gives (generate ((rows.flatMap Row.commands).map Command.char)) n
    ((rows.flatMap Row.code).map (Opcode.line convention)) n

theorem not_mem_of_rows (rows : List Row) : '.' ∉ (rows.flatMap Row.commands).map Command.char := by
  intro h
  obtain ⟨c, hc, hchar⟩ := List.mem_map.1 h
  obtain ⟨r, -, hc⟩ := List.mem_flatMap.1 hc
  obtain rfl : c = .output := Command.char_injective hchar
  cases r <;>
  · obtain ⟨up, -, hup⟩ := List.mem_map.1 hc
    cases up <;> contradiction

theorem map_printed_cons (rows : List Row) (gaps : List (List Row)) :
    (printed (rows :: gaps)).map Command.char =
      (rows.flatMap Row.commands).map Command.char ++ '.' :: (printed gaps).map Command.char := by
  simp only [printed, List.flatMap_cons, List.map_append, List.append_assoc, List.map_cons,
    List.singleton_append]
  rfl

theorem text_print (gaps : List (List Row)) :
    (Batch.print gaps).text = '.' :: (printed gaps).map Command.char :=
  map_printed_cons [] gaps

theorem gives_fillBuffer {convention : Convention} {generate : List Char → Gen (List Line)}
    {gaps : List (List Row)} (h : ∀ rows ∈ gaps, GivesRows convention generate rows) (slot n : Nat) :
    Gives (fillBuffer convention generate slot (isolate ['.'] ((printed gaps).map Command.char))) n
      ((fill slot gaps).map (Opcode.line convention)) n := by
  induction gaps generalizing slot with
  | nil => exact .pure n _
  | cons rows gaps ih =>
    have hslot : Gives (fillBuffer convention generate slot
        (['.'] :: isolate ['.'] ((printed gaps).map Command.char))) n
        ((.load :: .save slot :: fill (slot + 1) gaps).map (Opcode.line convention)) n := by
      rw [fillBuffer, if_pos rfl]
      exact (ih (fun r hr => h r (List.mem_cons_of_mem rows hr)) (slot + 1)).bind (.pure n _)
    rw [map_printed_cons, isolate_append (not_mem_of_rows rows), fill, List.map_append]
    by_cases hempty : (rows.flatMap Row.commands).map Command.char = []
    · -- a gap without commands is no fragment, and has no instructions
      have hcode : rows.flatMap Row.code = [] := by
        have := length_rowsCode_le rows
        rw [List.map_eq_nil_iff.1 hempty] at this
        exact List.length_eq_zero_iff.1 (Nat.le_zero.1 this)
      rw [if_pos hempty, hcode]
      exact hslot
    · have hne : (rows.flatMap Row.commands).map Command.char ≠ ['.'] := fun e =>
        not_mem_of_rows rows (by simp [e])
      rw [if_neg hempty, List.singleton_append, fillBuffer, if_neg hne]
      exact (h rows List.mem_cons_self n).bind (hslot.bind (.pure n _))

theorem count_printed (gaps : List (List Row)) :
    ((printed gaps).map Command.char).count '.' = gaps.length := by
  induction gaps with
  | nil => rfl
  | cons rows gaps ih =>
    rw [map_printed_cons, List.count_append, List.count_cons_self, ih,
      List.count_eq_zero_of_not_mem (not_mem_of_rows rows), List.length_cons, Nat.zero_add]

theorem gives_print {convention : Convention} {generate : List Char → Gen (List Line)}
    {gaps : List (List Row)} (h : ∀ rows ∈ gaps, GivesRows convention generate rows) (n : Nat) :
    Gives (Rule.print.translate convention generate (Batch.print gaps).text) n
      ((Batch.print gaps).code.map (Opcode.line convention)) n := by
  have hcount : (Batch.print gaps).text.count '.' = gaps.length + 1 := count_printed ([] :: gaps)
  have hfill : Gives (fillBuffer convention generate 0 (isolate ['.'] (Batch.print gaps).text)) n
      ((fill 0 ([] :: gaps)).map (Opcode.line convention)) n := by
    rw [text_print, isolate_cons_self, fillBuffer, if_pos rfl]
    exact (gives_fillBuffer h 1 n).bind (.pure n _)
  simp only [Rule.print, hcount]
  rw [Batch.code, List.map_append, List.map_cons]
  exact hfill.bind (.pure n _)

/-! ## Reads -/

theorem not_mem_of_silent {commands : List Command} (h : ∀ c ∈ commands, isSilent c.char = true) :
    ',' ∉ commands.map Command.char := by
  intro hmem
  obtain ⟨c, hc, hchar⟩ := List.mem_map.1 hmem
  have := h c hc
  rw [hchar] at this
  contradiction

theorem count_read (gaps : List Gap) : (Batch.read gaps).text.count ',' = gaps.length + 1 := by
  have hgaps : ((gaps.flatMap fun gap => gap.commands ++ [.input]).map Command.char).count ',' =
      gaps.length := by
    induction gaps with
    | nil => rfl
    | cons gap gaps ih =>
      rw [List.flatMap_cons, List.map_append, List.map_append, List.count_append,
        List.count_append, ih, List.count_eq_zero_of_not_mem (not_mem_of_silent gap.silent),
        List.length_cons, Nat.zero_add, Nat.add_comm]
      rfl
  rw [Batch.text, Batch.commands, List.map_cons]
  exact (List.count_cons_self ..).trans (by rw [hgaps])

theorem gives_read (convention : Convention) (generate : List Char → Gen (List Line))
    (gaps : List Gap) (n : Nat) :
    Gives (Rule.read.translate convention generate (Batch.read gaps).text) n
      ((Batch.read gaps).code.map (Opcode.line convention)) n := by
  simp only [Rule.read, count_read]
  have hmove : (if gaps.length + 1 > 1 then
      [op "add" [convention.pointerRegister, Text.hex (gaps.length + 1 - 1)]] else []) =
      (if gaps.length = 0 then [] else [Opcode.shift true gaps.length]).map
        (Opcode.line convention) := by
    by_cases h : gaps.length = 0
    · simp [h]
    · rw [if_pos (by omega), if_neg h]
      rfl
  rw [hmove, Batch.code, List.map_append]
  exact .pure n _

/-! ## Blocks -/

/-- The lines that the generator makes of a block's program are the written form of the block. -/
def Generates (generator : Generator) (b : Block) : Prop :=
  ∀ depth fuel offset n, b.program.length ≤ depth → b.program.length ≤ fuel →
    Gives (generatePieces generator.rules
        (fun rule piece => rule.translate generator.convention (generator.fragment depth) piece)
        fuel offset b.program.text)
      n (b.lines generator.convention n) (n + b.labels)

variable {generator : Generator}

theorem Generates.fragment {b : Block} (h : Generates generator b) {depth : Nat}
    (hdepth : b.program.length < depth) (n : Nat) :
    Gives (generator.fragment depth b.program.text) n (b.lines generator.convention n)
      (n + b.labels) := by
  cases depth with
  | zero => contradiction
  | succ depth => exact h depth _ 0 n (Nat.le_of_lt_succ hdepth) (Nat.le_refl _)

theorem Generates.generate {b : Block} (h : Generates generator b) :
    generator.generate b.program.text = .ok (b.lines generator.convention 0) := by
  obtain ⟨pieces, hrun⟩ := h.fragment (Nat.lt_succ_self _) 0 #[]
  exact congrArg Prod.fst hrun

def Batch.rule : Batch → Rule
  | row r => r.rule
  | print _ => .print
  | read _ => .read

/-- The rule of a batch translates its text into its instructions. -/
def Batch.Translated (generator : Generator) (b : Batch) : Prop :=
  ∀ depth n, b.commands.length ≤ depth →
    Gives (b.rule.translate generator.convention (generator.fragment depth) b.text) n
      (b.code.map (Opcode.line generator.convention)) n

theorem generates_batch {b : Batch} {rest : Block} (hne : b.commands ≠ [])
    (hselect : select generator.rules (Program.after b.commands rest.program).text =
      .ok (some ⟨b.text, b.rule⟩))
    (hpiece : b.Translated generator)
    (hrest : Generates generator rest) : Generates generator (.batch b rest) := by
  intro depth fuel offset n hdepth hfuel
  have htext : (Block.batch b rest).program.text = b.text ++ rest.program.text :=
    Program.text_after _ _
  have hlen : (Block.batch b rest).program.length = b.commands.length + rest.program.length := by
    rw [Program.length, htext, List.length_append, Batch.text, List.length_map]
  rw [← Block.program, htext] at hselect
  rw [htext]
  cases hb : b.commands with
  | nil => contradiction
  | cons c commands =>
    have hcons : b.text = c.char :: commands.map Command.char := by rw [Batch.text, hb, List.map_cons]
    rw [hb, List.length_cons] at hlen
    cases fuel with
    | zero => omega
    | succ fuel =>
      rw [hcons, List.cons_append] at hselect ⊢
      refine gives_generatePieces (List.cons_append ..).symm hselect ?_
        (hrest depth fuel _ n (by omega) (by omega))
      rw [← hcons]
      exact hpiece depth n (by rw [hb, List.length_cons]; omega)

theorem gives_loop {body : Block} (h : Generates generator body) {depth : Nat}
    (hdepth : body.program.length < depth) (n : Nat) :
    Gives (Rule.loop.translate generator.convention (generator.fragment depth)
        ('[' :: body.program.text ++ [']'])) n
      (if body.code = [] then []
        else Rule.loopLines generator.convention (n + body.labels) (body.lines generator.convention n))
      (if body.code = [] then n else n + body.labels + 1) := by
  have hbody := h.fragment hdepth n
  have hinside : (('[' :: body.program.text ++ [']']).drop 1).dropLast = body.program.text := by
    simp
  have hlines := body.lines_eq_nil_iff generator.convention n
  simp only [Rule.loop, hinside]
  by_cases htext : body.program.text.isEmpty = true
  · -- nothing is generated for nothing
    rw [List.isEmpty_iff.1 htext] at hbody
    have hnil : body.code = [] := by
      cases depth with
      | zero => contradiction
      | succ depth =>
        obtain ⟨pieces, hrun⟩ := hbody #[]
        rw [← hlines]
        exact (Except.ok.inj (congrArg Prod.fst hrun)).symm
    rw [if_pos htext, if_pos hnil, if_pos hnil]
    exact .pure n _
  · rw [if_neg htext]
    refine hbody.bind ?_
    by_cases hnil : body.code = []
    · rw [hlines.2 hnil, if_pos hnil, if_pos hnil, Block.labels_of_code_eq_nil hnil]
      exact .pure n _
    · have hsome : ¬(body.lines generator.convention n).isEmpty = true := by
        rw [List.isEmpty_iff, hlines]
        exact hnil
      rw [if_neg hnil, if_neg hnil, if_neg hsome]
      exact (gives_freshLabel _).bind (.pure _ _)

theorem generates_loop (hrules : generator.rules = Rule.standard) {body rest : Block}
    (hbody : Generates generator body) (hrest : Generates generator rest) :
    Generates generator (.loop body rest) := by
  intro depth fuel offset n hdepth hfuel
  have hselect := select_loop body.program rest.program
  have htext : (Block.loop body rest).program.text =
      ('[' :: body.program.text ++ [']']) ++ rest.program.text := by
    simp [Block.program, Program.text]
  have hlen : (Block.loop body rest).program.length =
      body.program.length + rest.program.length + 2 := Program.length_loop _ _
  rw [← Block.program, ← hrules] at hselect
  cases fuel with
  | zero => omega
  | succ fuel =>
    have hpiece := gives_loop hbody (show body.program.length < depth by omega) n
    have hcons : (Block.loop body rest).program.text =
        '[' :: (body.program.text ++ ']' :: rest.program.text) := rfl
    rw [hcons] at hselect htext ⊢
    rw [Block.lines, Block.labels]
    by_cases hnil : body.code = []
    · rw [if_pos hnil, if_pos hnil] at hpiece ⊢
      exact gives_generatePieces htext hselect hpiece
        (hrest depth fuel _ n (by omega) (by omega))
    · rw [if_neg hnil, if_neg hnil] at hpiece ⊢
      rw [show n + (body.labels + 1 + rest.labels) = n + body.labels + 1 + rest.labels by omega]
      exact gives_generatePieces htext hselect hpiece
        (hrest depth fuel _ _ (by omega) (by omega))

/-- Also the body of every loop is generated as it is written. -/
def Block.Faithful (generator : Generator) : Block → Prop
  | done => True
  | batch _ rest => rest.Faithful generator
  | loop body rest => Generates generator body ∧ body.Faithful generator ∧ rest.Faithful generator

theorem Program.after_eq_after_done {xs ys : List Command} {p : Program}
    (h : Program.after xs p = .after ys .done) : ∃ zs, ys = xs ++ zs ∧ p = .after zs .done := by
  induction xs generalizing ys with
  | nil => exact ⟨ys, rfl, h⟩
  | cons c xs ih =>
    cases ys with
    | nil => contradiction
    | cons d ys =>
      obtain ⟨rfl, hafter⟩ : c = d ∧ Program.after xs p = .after ys .done := Program.command.inj h
      obtain ⟨zs, rfl, hp⟩ := ih hafter
      exact ⟨zs, rfl, hp⟩

theorem Block.exists_rows {b : Block} {commands : List Command}
    (h : b.program = .after commands .done) (hsilent : ∀ c ∈ commands, isSilent c.char = true) :
    ∃ rows : List Row, rows.flatMap Row.commands = commands ∧ b.labels = 0 ∧
      ∀ convention n,
        b.lines convention n = (rows.flatMap Row.code).map (Opcode.line convention) := by
  induction b generalizing commands with
  | done =>
    cases commands with
    | nil => exact ⟨[], rfl, rfl, fun _ _ => rfl⟩
    | cons c commands => contradiction
  | loop body rest =>
    cases commands <;> contradiction
  | batch b rest ih =>
    obtain ⟨others, rfl, hrest⟩ := Program.after_eq_after_done h
    obtain ⟨rows, rfl, hlabels, hlines⟩ :=
      ih hrest fun c hc => hsilent c (List.mem_append_right _ hc)
    cases b with
    | row r =>
      refine ⟨r :: rows, rfl, hlabels, fun convention n => ?_⟩
      rw [lines, hlines, List.flatMap_cons, List.map_append]
      rfl
    | print gaps => exact absurd (hsilent .output (by simp [Batch.commands, printed])) (by decide)
    | read gaps => exact absurd (hsilent .input (by simp [Batch.commands])) (by decide)

theorem givesRows_of_generates {b : Block} {commands : List Command}
    (h : b.program = .after commands .done) (hsilent : ∀ c ∈ commands, isSilent c.char = true) :
    ∃ rows : List Row, rows.flatMap Row.commands = commands ∧
      ∀ {generator}, Generates generator b → ∀ depth, (rows.flatMap Row.commands).length < depth →
        GivesRows generator.convention (generator.fragment depth) rows := by
  obtain ⟨rows, rfl, hlabels, hlines⟩ := Block.exists_rows h hsilent
  refine ⟨rows, rfl, fun hgen depth hdepth n => ?_⟩
  have hfragment := hgen.fragment (by rw [h, Program.length_after]; exact hdepth) n
  rw [hlines, hlabels, h, Program.text_after] at hfragment
  simpa [Program.text] using hfragment

theorem length_gap_lt {rows : List Row} {gaps : List (List Row)} (h : rows ∈ gaps) :
    (rows.flatMap Row.commands).length < (Batch.print gaps).commands.length := by
  obtain ⟨before, after, rfl⟩ := List.append_of_mem h
  simp only [Batch.commands, printed, List.flatMap_cons, List.flatMap_append, List.length_append,
    List.length_cons]
  omega

theorem exists_gapRows {P : List Row → Prop} {gaps : List (List Command)}
    (h : ∀ gap ∈ gaps, ∃ rows : List Row, rows.flatMap Row.commands = gap ∧ P rows) :
    ∃ rowss : List (List Row), printed rowss = gaps.flatMap (· ++ [.output]) ∧
      ∀ rows ∈ rowss, P rows := by
  induction gaps with
  | nil => exact ⟨[], rfl, by simp⟩
  | cons gap gaps ih =>
    obtain ⟨rows, rfl, hrows⟩ := h gap List.mem_cons_self
    obtain ⟨rowss, hprinted, hrowss⟩ := ih fun g hg => h g (List.mem_cons_of_mem _ hg)
    refine ⟨rows :: rowss, ?_, by simpa [hrows] using hrowss⟩
    rw [printed, List.flatMap_cons, List.flatMap_cons, ← hprinted, printed]

theorem exists_print {gaps : List (List Command)}
    (hsilent : ∀ gap ∈ gaps, ∀ c ∈ gap, isSilent c.char = true)
    (h : ∀ gap ∈ gaps, ∃ b : Block, b.program = .after gap .done ∧
      ∀ {generator : Generator}, generator.rules = Rule.standard → Generates generator b) :
    ∃ rowss : List (List Row),
      (Batch.print rowss).commands = .output :: gaps.flatMap (· ++ [.output]) ∧
      ∀ {generator : Generator}, generator.rules = Rule.standard →
        (Batch.print rowss).Translated generator := by
  have hrows : ∀ gap ∈ gaps, ∃ rows : List Row, rows.flatMap Row.commands = gap ∧
      ∀ {generator : Generator}, generator.rules = Rule.standard →
        ∀ depth, (rows.flatMap Row.commands).length < depth →
          GivesRows generator.convention (generator.fragment depth) rows := by
    intro gap hgap
    obtain ⟨b, hb, hgen⟩ := h gap hgap
    obtain ⟨rows, hcommands, hgives⟩ := givesRows_of_generates hb (hsilent gap hgap)
    exact ⟨rows, hcommands, fun hrules => hgives (hgen hrules)⟩
  obtain ⟨rowss, hprinted, hrowss⟩ := exists_gapRows hrows
  refine ⟨rowss, ?_, fun hrules depth n hdepth =>
    gives_print (fun rows hmem => hrowss rows hmem hrules depth ?_) n⟩
  · rw [← hprinted]
    rfl
  · exact Nat.lt_of_lt_of_le (length_gap_lt hmem) hdepth

/-- Every program is cut into a block whose written form is what any generator with the rules of the
language makes of it. -/
theorem exists_common_block (p : Program) :
    ∃ b : Block, b.program = p ∧ ∀ {generator : Generator}, generator.rules = Rule.standard →
      Generates generator b ∧ b.Faithful generator ∧ b.All (Batch.Translated generator) := by
  induction hlen : p.length using Nat.strongRecOn generalizing p with
  | ind len ih =>
    -- a batch is followed by a shorter program
    have hbatch : ∀ (c : Command) (rest : Program) (b : Batch) (q : Program),
        p = .command c rest → Program.command c rest = .after b.commands q → b.commands ≠ [] →
        select Rule.standard (Program.command c rest).text = .ok (some ⟨b.text, b.rule⟩) →
        (∀ {generator : Generator}, generator.rules = Rule.standard → b.Translated generator) →
        ∃ block : Block, block.program = p ∧ ∀ {generator : Generator},
          generator.rules = Rule.standard → Generates generator block ∧ block.Faithful generator ∧
            block.All (Batch.Translated generator) := by
      intro c rest b q hp hq hne hselect hpiece
      have hlt : q.length < len := by
        have := List.length_pos_iff.2 hne
        rw [← hlen, hp, hq, Program.length_after]
        omega
      obtain ⟨block, rfl, hblock⟩ := ih q.length hlt q rfl
      refine ⟨.batch b block, by rw [hp, hq, Block.program], fun hrules => ?_⟩
      obtain ⟨hgen, hfaithful, hall⟩ := hblock hrules
      rw [hq, ← hrules] at hselect
      exact ⟨generates_batch hne hselect (hpiece hrules) hgen, hfaithful, hpiece hrules, hall⟩
    cases p with
    | done =>
      refine ⟨.done, rfl, fun _ => ⟨fun depth fuel offset n _ _ => ?_, trivial, trivial⟩⟩
      cases fuel <;> exact .pure n _
    | loop body rest =>
      rw [Program.length_loop] at hlen
      obtain ⟨b, rfl, hb⟩ := ih body.length (by omega) body rfl
      obtain ⟨r, rfl, hr⟩ := ih rest.length (by omega) rest rfl
      refine ⟨.loop b r, rfl, fun hrules => ?_⟩
      obtain ⟨hgenb, hfaithfulb, hallb⟩ := hb hrules
      obtain ⟨hgenr, hfaithfulr, hallr⟩ := hr hrules
      exact ⟨generates_loop hrules hgenb hgenr, ⟨hgenb, hfaithfulb, hfaithfulr⟩, hallb, hallr⟩
    | command c rest =>
      by_cases hc : isSilent c.char = true
      · obtain ⟨r, q, hne, hq, hselect⟩ := select_row hc rest
        exact hbatch c rest (.row r) q rfl hq hne hselect fun _ depth n _ => gives_row _ _ r n
      cases c
      case input =>
        obtain ⟨gaps, q, hq, hselect⟩ := select_read rest
        exact hbatch _ rest (.read gaps) q rfl hq (List.cons_ne_nil _ _) hselect
          fun _ depth n _ => gives_read _ _ gaps n
      case output =>
        obtain ⟨gaps, q, hgaps, hq, hselect⟩ := select_print rest
        -- the gaps are shorter programs of rows
        have hshorter : ∀ gap ∈ gaps, ∃ b : Block, b.program = .after gap .done ∧
            ∀ {generator : Generator}, generator.rules = Rule.standard → Generates generator b := by
          intro gap hgap
          have hshort : gap.length < len := by
            obtain ⟨before, after, rfl⟩ := List.append_of_mem hgap
            rw [← hlen, hq, Program.length_after]
            simp only [List.flatMap_append, List.flatMap_cons, List.length_append, List.length_cons]
            omega
          obtain ⟨b, hb, hgen⟩ :=
            ih _ (by rw [Program.length_after]; exact hshort) (.after gap .done) rfl
          exact ⟨b, hb, fun hrules => (hgen hrules).1⟩
        obtain ⟨rowss, hcommands, htranslated⟩ := exists_print hgaps hshorter
        rw [← hcommands] at hq hselect
        exact hbatch _ rest (.print rowss) q rfl hq (List.cons_ne_nil _ _) hselect htranslated
      all_goals exact absurd rfl hc

theorem exists_block (hrules : generator.rules = Rule.standard) (p : Program) :
    ∃ b : Block, b.program = p ∧ Generates generator b ∧ b.Faithful generator := by
  obtain ⟨b, hb, hgen⟩ := exists_common_block p
  exact ⟨b, hb, (hgen hrules).1, (hgen hrules).2.1⟩

theorem lines_program {compiler : Compiler} {b : Block} (h : Generates compiler.generator b) :
    compiler.lines b.program.text = .ok (b.lines compiler.convention 0) := by
  have hjoin : joinSource b.program.text = b.program.text := by
    rw [joinSource, List.filter_eq_self]
    exact b.program.forall_mem_text (Text.forall_mem_of_all (by decide))
  have hrun : (compiler.generator.run b.program.text).1 = .ok (b.lines compiler.convention 0) :=
    h.generate
  rw [Compiler.lines, Compiler.linesWithRemarks, hjoin]
  by_cases hempty : b.program.text.isEmpty = true
  · rw [List.isEmpty_iff.1 hempty] at hrun
    have hnil : b.lines compiler.convention 0 = [] := (Except.ok.inj hrun).symm
    rw [if_pos hempty, hnil]
  · rw [if_neg hempty, ensureProgram_text]
    simp only [hrun]

theorem lineTexts_of_lines {compiler : Compiler} {source : List Char} {lines : List Line}
    (h : compiler.lines source = .ok lines) :
    compiler.lineTexts source = .ok (lines.map Line.text) := by
  rw [Compiler.lineTexts, h]
  rfl

theorem lineTexts_program {compiler : Compiler} {b : Block}
    (h : Generates compiler.generator b) :
    compiler.lineTexts b.program.text = .ok ((b.lines compiler.convention 0).map Line.text) :=
  lineTexts_of_lines (lines_program h)

theorem lines_joinSource (compiler : Compiler) (source : List Char) :
    compiler.lines (joinSource source) = compiler.lines source := by
  have hjoin : joinSource (joinSource source) = joinSource source := by
    simp [joinSource, List.filter_filter]
  simp only [Compiler.lines, Compiler.linesWithRemarks, hjoin]

theorem lineTexts_joinSource (compiler : Compiler) (source : List Char) :
    compiler.lineTexts (joinSource source) = compiler.lineTexts source := by
  rw [Compiler.lineTexts, lines_joinSource, Compiler.lineTexts]

/-- A text without a flaw is the program of a block, and it is compiled to the block's lines. -/
theorem exists_lines (convention : Convention) {text : List Char} (h : flaw? text = none) :
    ∃ b : Block, b.program.text = text ∧ b.Faithful ({ convention } : Compiler).generator ∧
      ({ convention } : Compiler).lineTexts text = .ok ((b.lines convention 0).map Line.text) := by
  obtain ⟨p, rfl⟩ := flaw?_eq_none_iff.1 h
  obtain ⟨b, rfl, hgen, hfaithful⟩ :=
    exists_block (show ({ convention } : Compiler).generator.rules = _ from rfl) p
  exact ⟨b, rfl, hfaithful, lineTexts_program hgen⟩

end Brainfuck
