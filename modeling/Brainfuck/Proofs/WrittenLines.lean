import Brainfuck.Proofs.Assembling

/-!
# The lines of generated code

* `Line.IsGenerated` : the lines of which generated code consists (`isGenerated_block`);
* `Line.IsGenerated.ofLine_text` : they are read back from their written form;
* `filter_isLabelLine`, `count_map_text` : written lines that define labels, and how often a line is
  written;
* `Line.label?`, `labels_ofLinesFrom`, `instructions_ofLinesFrom` : the labels and the instructions of a
  listing are those of its lines;
* `numbered_ofLinesFrom`, `map_line_ofLinesFrom` : the instructions with the numbers of their lines, which
  are decided by the lines that are labels.
-/

namespace Brainfuck

open Machine Codegen

/-- The label that a line defines. -/
def Line.label? : Line → Option (List Char)
  | label name => some name
  | _ => none

/-- The jump to the label at one of the two ends of a loop: the end is left for if the cell is zero. -/
def jumpTo (atExit : Bool) (number : Nat) : Line :=
  op (if atExit then "je" else "jmp") [labelName atExit number]

/-- The lines of generated code. -/
inductive Line.IsGenerated (convention : Convention) : Line → Prop where
  | opcode (o : Opcode) : IsGenerated convention (o.line convention)
  | jump (atExit : Bool) (number : Nat) : IsGenerated convention (jumpTo atExit number)
  | label (atExit : Bool) (number : Nat) : IsGenerated convention (.label (labelName atExit number))

/-- What a line says, if it is not taken as it is. -/
def Line.statement : Line → Statement
  | label name => .label name
  | instruction mnemonic operands => .instruction mnemonic operands
  | verbatim _ => .nothing

variable {convention convention' : Convention} {pointer cache pointer' cache' : Register}

theorem Line.IsGenerated.ofLine_text (names : convention.Names pointer cache) {l : Line}
    (h : l.IsGenerated convention) : Statement.ofLine l.text = l.statement := by
  cases h with
  | opcode o => exact o.ofLine_line names
  | jump e i => exact ofLine_jump (by cases e <;> simp) e i
  | label e i => exact ofLine_labelName e i

theorem loopLines_eq (convention : Convention) (number : Nat) (body : List Line) :
    Rule.loopLines convention number body =
      .label (labelName false number) :: Opcode.test.line convention :: jumpTo true number :: body ++
        [jumpTo false number, .label (labelName true number)] := rfl

theorem isGenerated_loopLines (number : Nat) {body : List Line}
    (h : ∀ l ∈ body, l.IsGenerated convention) :
    ∀ l ∈ Rule.loopLines convention number body, l.IsGenerated convention := by
  intro l hl
  simp only [loopLines_eq, List.cons_append, List.mem_cons, List.mem_append, List.not_mem_nil,
    or_false] at hl
  rcases hl with rfl | rfl | rfl | hl | rfl | rfl
  · exact .label false number
  · exact .opcode .test
  · exact .jump true number
  · exact h l hl
  · exact .jump false number
  · exact .label true number

theorem isGenerated_opcodes (os : List Opcode) :
    ∀ l ∈ os.map (Opcode.line convention), l.IsGenerated convention := by
  intro l hl
  obtain ⟨o, -, rfl⟩ := List.mem_map.1 hl
  exact .opcode o

theorem isGenerated_block (b : Block) (n : Nat) :
    ∀ l ∈ b.lines convention n, l.IsGenerated convention := by
  induction b generalizing n with
  | done => simp [Block.lines]
  | batch b rest ih =>
    rw [Block.lines]
    exact List.forall_mem_append.2 ⟨isGenerated_opcodes b.code, ih n⟩
  | loop body rest ihb ih =>
    by_cases hnil : body.code = []
    · rw [Block.lines, if_pos hnil]
      exact ih n
    · rw [Block.lines, if_neg hnil]
      exact List.forall_mem_append.2 ⟨isGenerated_loopLines _ (ihb n), ih _⟩

def isLabelLine (text : List Char) : Bool :=
  match Statement.ofLine text with
  | .label _ => true
  | _ => false

theorem filter_isLabelLine (names : convention.Names pointer cache) {ls : List Line}
    (h : ∀ l ∈ ls, l.IsGenerated convention) :
    (ls.map Line.text).filter isLabelLine = (ls.filterMap Line.label?).map (· ++ [':']) := by
  induction ls with
  | nil => rfl
  | cons l ls ih =>
    obtain ⟨hl, hls⟩ := List.forall_mem_cons.1 h
    have hread := hl.ofLine_text names
    rw [List.map_cons, List.filter_cons, isLabelLine, hread, ih hls]
    cases hl <;> rfl

theorem Line.statement_inj {l l' : Line} (hl : l.statement ≠ .nothing)
    (h : l.statement = l'.statement) : l = l' := by
  cases l with
  | label name =>
    cases l' <;> cases h
    rfl
  | instruction mnemonic operands =>
    cases l' <;> cases h
    rfl
  | verbatim text => exact absurd rfl hl

/-- A line of generated code is known by its written form. -/
theorem Line.IsGenerated.text_inj (names : convention.Names pointer cache) {l l' : Line}
    (h : l.IsGenerated convention) (h' : l'.IsGenerated convention) (htext : l.text = l'.text) :
    l = l' := by
  refine Line.statement_inj ?_ ?_
  · intro hnothing
    cases h <;> contradiction
  · rw [← h.ofLine_text names, htext, h'.ofLine_text names]

theorem count_map_text (names : convention.Names pointer cache) {ls : List Line}
    (h : ∀ l ∈ ls, l.IsGenerated convention) {l : Line} (hl : l.IsGenerated convention) :
    (ls.map Line.text).count l.text = ls.count l := by
  rw [List.count, List.countP_map, List.count]
  refine List.countP_congr fun l' hl' => ?_
  simp only [Function.comp_apply, beq_iff_eq]
  exact ⟨(h l' hl').text_inj names hl, congrArg Line.text⟩

/-! ## Listings -/

theorem labels_ofLinesFrom (names : convention.Names pointer cache) {ls : List Line}
    (h : ∀ l ∈ ls, l.IsGenerated convention) (line count : Nat) :
    (Listing.ofLinesFrom line count (ls.map Line.text)).labels.map Prod.fst =
      ls.filterMap Line.label? := by
  induction ls generalizing line count with
  | nil => rfl
  | cons l ls ih =>
    obtain ⟨hl, hls⟩ := List.forall_mem_cons.1 h
    have hread := hl.ofLine_text names
    rw [List.map_cons]
    cases hl with
    | opcode o =>
      rw [Listing.ofLinesFrom_instruction hread]
      exact ih hls _ _
    | jump e i =>
      rw [Listing.ofLinesFrom_instruction hread]
      exact ih hls _ _
    | label e i =>
      rw [Listing.ofLinesFrom_label hread, List.map_cons, ih hls]
      rfl

/-- The line in which an instruction is written. -/
def Instruction.written (x : Instruction) : Line := .instruction x.mnemonic x.operands

/-- The instructions of a listing are its lines without the labels, with the numbers of these lines. -/
theorem numbered_ofLinesFrom (names : convention.Names pointer cache) {ls : List Line}
    (h : ∀ l ∈ ls, l.IsGenerated convention) (line count : Nat) :
    (Listing.ofLinesFrom line count (ls.map Line.text)).instructions.map (fun x => (x.written, x.line)) =
      (ls.zipIdx line).filter (·.1.label?.isNone) := by
  induction ls generalizing line count with
  | nil => rfl
  | cons l ls ih =>
    obtain ⟨hl, hls⟩ := List.forall_mem_cons.1 h
    have hread := hl.ofLine_text names
    rw [List.map_cons, List.zipIdx_cons]
    cases hl with
    | opcode o =>
      rw [Listing.ofLinesFrom_instruction hread, List.map_cons, ih hls]
      rfl
    | jump e i =>
      rw [Listing.ofLinesFrom_instruction hread, List.map_cons, ih hls]
      rfl
    | label e i =>
      rw [Listing.ofLinesFrom_label hread]
      exact ih hls _ _

theorem instructions_ofLinesFrom (names : convention.Names pointer cache) {ls : List Line}
    (h : ∀ l ∈ ls, l.IsGenerated convention) (line count : Nat) :
    (Listing.ofLinesFrom line count (ls.map Line.text)).instructions.map Instruction.written =
      ls.filter (·.label?.isNone) := by
  have hnumbered := congrArg (List.map Prod.fst) (numbered_ofLinesFrom names h line count)
  rw [List.map_map] at hnumbered
  conv_rhs => rw [← List.zipIdx_map_fst line ls, List.filter_map]
  exact hnumbered

theorem map_line_ofLinesFrom (names : convention.Names pointer cache) {ls : List Line}
    (h : ∀ l ∈ ls, l.IsGenerated convention) (line count : Nat) :
    (Listing.ofLinesFrom line count (ls.map Line.text)).instructions.map Instruction.line =
      (((ls.map Line.label?).zipIdx line).filter (·.1.isNone)).map Prod.snd := by
  have hnumbered := congrArg (List.map Prod.snd) (numbered_ofLinesFrom names h line count)
  rw [List.map_map] at hnumbered
  rw [List.zipIdx_map, List.filter_map, List.map_map]
  exact hnumbered

/-- Two listings of lines of which the same are labels have their instructions in the same lines. -/
theorem lines_ofLinesFrom (names : convention.Names pointer cache)
    (names' : convention'.Names pointer' cache') {ls ls' : List Line}
    (hls : ∀ l ∈ ls, l.IsGenerated convention) (hls' : ∀ l ∈ ls', l.IsGenerated convention')
    (h : ls.map Line.label? = ls'.map Line.label?) (line count : Nat) :
    (Listing.ofLinesFrom line count (ls.map Line.text)).instructions.map Instruction.line =
      (Listing.ofLinesFrom line count (ls'.map Line.text)).instructions.map Instruction.line := by
  rw [map_line_ofLinesFrom names hls, map_line_ofLinesFrom names' hls', h]

/-- Which lines of a block are labels does not depend on the registers. -/
theorem map_label?_block (convention convention' : Convention) (b : Block) (n : Nat) :
    (b.lines convention n).map Line.label? = (b.lines convention' n).map Line.label? := by
  induction b generalizing n with
  | done => rfl
  | batch b rest ih =>
    rw [Block.lines, Block.lines, List.map_append, List.map_append, ih, List.map_map, List.map_map]
    rfl
  | loop body rest ihb ih =>
    by_cases hnil : body.code = []
    · rw [Block.lines, Block.lines, if_pos hnil, if_pos hnil, ih]
    · rw [Block.lines, Block.lines, if_neg hnil, if_neg hnil]
      simp only [loopLines_eq, List.map_cons, List.map_append, List.cons_append, ihb, ih]
      rfl

end Brainfuck
