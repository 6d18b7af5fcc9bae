import Brainfuck.Proofs.Assembling
import Brainfuck.Proofs.Generation
import Brainfuck.Proofs.Substitution

/-!
# Whole program texts

* `ended` : lines with a line feed behind each (`splitLines_ended`, `substitute_ended`);
* `prologue`, `epilogue` : the lines of the bundled template around those of the program;
* `fill_bundled` : the bundled template, filled;
* `isLineEnd_lines` : the lines of a block have no line ends inside;
* `splitLines_whole` : the lines of the text of a whole program;
* `ofLines_prologue`, `ofLinesFrom_epilogue` : the instructions of the template.
-/

namespace Brainfuck

open Machine Codegen Text

/-- Lines with a line feed behind each. -/
def ended (lines : List (List Char)) : List Char := lines.flatMap (· ++ ['\n'])

theorem ended_cons (line : List Char) (lines : List (List Char)) :
    ended (line :: lines) = line ++ '\n' :: ended lines := by
  simp [ended]

theorem ended_append (xs ys : List (List Char)) : ended (xs ++ ys) = ended xs ++ ended ys :=
  List.flatMap_append

/-! ## Cutting into lines -/

theorem joinReturns_of_not_mem {s : List Char} (h : '\r' ∉ s) : joinReturns s = s := by
  have hfold : (s.foldr joinReturnsStep ([], none)).1 = s := by
    induction s with
    | nil => rfl
    | cons c s ih =>
      have hc : c ≠ '\r' := fun e => h (by simp [e])
      rw [List.foldr_cons, joinReturnsStep, if_neg (fun hr => hc hr.1),
        ih (fun hs => h (List.mem_cons_of_mem c hs))]
  exact hfold

theorem splitLines_ended {lines : List (List Char)}
    (h : ∀ line ∈ lines, ∀ c ∈ line, isLineEnd c = false) : splitLines (ended lines) = lines := by
  have hreturn : '\r' ∉ ended lines := by
    intro hmem
    obtain ⟨line, hline, hmem⟩ := List.mem_flatMap.1 hmem
    rcases List.mem_append.1 hmem with hmem | hmem
    · exact absurd (h line hline _ hmem) (by decide)
    · exact absurd (List.mem_singleton.1 hmem) (by decide)
  rw [splitLines, joinReturns_of_not_mem hreturn]
  clear hreturn
  induction lines with
  | nil => rfl
  | cons line lines ih =>
    have hline := h line List.mem_cons_self
    rw [ended_cons, List.foldr_append, List.foldr_cons,
      ih (fun l hl => h l (List.mem_cons_of_mem line hl))]
    clear ih h
    induction line with
    | nil => rfl
    | cons c line ih =>
      rw [List.foldr_cons, ih (fun d hd => hline d (List.mem_cons_of_mem c hd))]
      simp [hline c List.mem_cons_self]

/-- Lines with line feeds between them, and one behind the last, are ended lines. An empty list of
lines is one empty line. -/
theorem joinLines_append (lines : List (List Char)) :
    joinLines lines ++ ['\n'] = ended (if lines = [] then [[]] else lines) := by
  induction lines with
  | nil => rfl
  | cons line lines ih =>
    cases lines with
    | nil => simp [joinLines, ended, List.intercalate]
    | cons other lines =>
      rw [if_neg (List.cons_ne_nil _ _)] at ih ⊢
      rw [ended_cons, ← ih]
      simp [joinLines, List.intercalate, List.intersperse]

/-! ## Replacing marks -/

/-- A mark without line feeds is replaced in each line alone. -/
theorem substitute_ended {part : List Char} (h : '\n' ∉ part) (hne : part ≠ []) (value : List Char)
    (lines : List (List Char)) :
    substitute part value (ended lines) = ended (lines.map (substitute part value)) := by
  induction lines with
  | nil => rfl
  | cons line lines ih =>
    have hfeed : ¬part <+: '\n' :: ended lines := by
      intro hprefix
      rcases List.prefix_cons_iff.1 hprefix with hnil | ⟨t, rfl, -⟩
      · exact hne hnil
      · exact h List.mem_cons_self
    rw [ended_cons, List.map_cons, ended_cons, substitute_append fun hacross => h hacross.mem,
      substitute_cons hfeed, ih]

theorem occursIn_ended {line : List Char} {lines : List (List Char)} (h : line ∈ lines) :
    occursIn line (ended lines) = true := by
  obtain ⟨before, after, rfl⟩ := List.append_of_mem h
  rw [ended_append, ended_cons, occursIn_iff]
  exact List.infix_append' _ _ _

/-! ## The bundled template -/

/-- The head of the bundled template, up to the label of the first instruction. -/
def heading : List (List Char) :=
  ["; Brainfuck program translated by bfnasm (NASM, x86-64 Linux)".toList, [],
    "\tglobal\t_start".toList, [], "\tsection\t.text".toList, "_start:".toList]

/-- The instructions of the bundled template that reserve and clear the tape, without the first. -/
def startup : List (List Char) :=
  ["\tsub\trsp, rcx".toList, "\tmov\trbx, rsp".toList, "\tmov\trdi, rsp".toList,
    ".clear:".toList, "\tmov\tbyte [rdi], 0x0".toList, "\tadd\trdi, 0x1".toList,
    "\tsub\trcx, 0x1".toList, "\tjne\t.clear".toList]

def prologue (cells : Nat) : List (List Char) :=
  heading ++ ("\tmov\trcx, ".toList ++ hex cells) :: startup

def epilogue : List (List Char) :=
  ["\tmov\trax, 0x3c".toList, "\txor\trdi, rdi".toList, "\tsyscall".toList]

def filledLine (cells : Nat) (body line : List Char) : List Char :=
  line
    |> substitute Template.stackSizeRegisterMark "rcx".toList
    |> substitute Template.stackSizeMark (hex cells)
    |> substitute Template.pointerRegisterMark "rbx".toList
    |> substitute Template.sourceMark body

theorem filledLine_of_not_mem {line : List Char} (h : '%' ∉ line) (cells : Nat) (body : List Char) :
    filledLine cells body line = line := by
  have hsame : ∀ part value, substitute ('%' :: part) value line = line :=
    substitute_of_not_mem h
  exact (congrArg _ ((congrArg _ ((congrArg _ (hsame _ _)).trans (hsame _ _))).trans (hsame _ _))).trans
    (hsame _ _)

theorem map_filledLine (cells : Nat) (body : List Char) :
    (Template.bundledLines.map String.toList).map (filledLine cells body) =
      prologue cells ++ body :: epilogue := by
  have hsize : filledLine cells body "\tmov\t%STACK_SIZE_REGISTER%, %STACK_SIZE%".toList =
      "\tmov\trcx, ".toList ++ hex cells := by
    have hpercent : '%' ∉ "\tmov\trcx, ".toList ++ (hex cells ++ []) := by
      rw [List.append_nil, List.mem_append]
      rintro (h | h)
      · exact absurd h (by decide)
      · exact forall_mem_hex (P := (· ≠ '%')) (by decide) cells _ h rfl
    have hsame : ∀ part value, substitute ('%' :: part) value _ = _ := substitute_of_not_mem hpercent
    exact ((congrArg _ (hsame _ _)).trans (hsame _ _)).trans (by rw [List.append_nil])
  have hsource : filledLine cells body "%SOURCE%".toList = body ++ [] := rfl
  have hreserve : filledLine cells body "\tsub\trsp, %STACK_SIZE_REGISTER%".toList =
      "\tsub\trsp, rcx".toList := rfl
  have hpointer : filledLine cells body "\tmov\t%POINTER_REGISTER%, rsp".toList =
      "\tmov\trbx, rsp".toList := rfl
  have hcount : filledLine cells body "\tsub\t%STACK_SIZE_REGISTER%, 0x1".toList =
      "\tsub\trcx, 0x1".toList := rfl
  simp (disch := decide) only [Template.bundledLines, List.map_cons, List.map_nil,
    filledLine_of_not_mem, hsize, hsource, hreserve, hpointer, hcount, List.append_nil]
  rfl

/-- The bundled template, filled. No mark has a line feed in it, so that its lines are filled one by
one. -/
theorem fill_bundled (cells : Nat) (lines : List (List Char)) :
    Template.fill Template.bundled lines { stackSize := cells } =
      .ok (ended (prologue cells ++ joinLines lines :: epilogue)) := by
  have hbundled : Template.bundled = ended (Template.bundledLines.map String.toList) := by
    rw [Template.bundled, ended, List.flatMap_map]
  have hsource : occursIn Template.sourceMark Template.bundled = true := by
    rw [hbundled]
    exact occursIn_ended (List.mem_map_of_mem (by simp [Template.bundledLines]))
  have hmarks : ∀ part ∈ [Template.stackSizeRegisterMark, Template.stackSizeMark,
      Template.pointerRegisterMark, Template.sourceMark], '\n' ∉ part ∧ part ≠ [] := by decide
  have hended := fun part hpart => substitute_ended (hmarks part hpart).1 (hmarks part hpart).2
  rw [Template.fill, if_pos hsource, hbundled, ← map_filledLine, hended _ (by simp),
    hended _ (by simp), hended _ (by simp), hended _ (by simp), List.map_map, List.map_map,
    List.map_map]
  rfl

/-! ## The lines of a program -/

theorem isLineEnd_lines {convention : Convention} {pointer cache : Register}
    (names : convention.Names pointer cache) (b : Block) (n : Nat) :
    ∀ line ∈ (b.lines convention n).map Line.text, ∀ c ∈ line, isLineEnd c = false := by
  have hopcode (o : Opcode) : ∀ c ∈ (o.line convention).text, isLineEnd c = false :=
    Line.isLineEnd_instruction o.isMnemonic (o.isOperand_operands names)
  have hlabel (e : Bool) (i : Nat) : ∀ c ∈ (Line.label (labelName e i)).text, isLineEnd c = false :=
    Line.isLineEnd_label fun c hc => (labelName_plain e i c hc).1
  have hjump {mnemonic : String} (h : mnemonic = "je" ∨ mnemonic = "jmp") (e : Bool) (i : Nat) :
      ∀ c ∈ (op mnemonic [labelName e i]).text, isLineEnd c = false :=
    Line.isLineEnd_instruction (isMnemonic_jump h) (by simpa using isOperand_labelName e i)
  induction b generalizing n with
  | done => simp [Block.lines]
  | batch b rest ih =>
    rw [Block.lines, List.map_append, List.forall_mem_append]
    refine ⟨fun line hline => ?_, ih n⟩
    obtain ⟨o, -, rfl⟩ := List.mem_map.1 (List.map_map ▸ hline)
    exact hopcode o
  | loop body rest ihb ih =>
    rw [Block.lines]
    split
    · exact ih n
    · rw [List.map_append, map_text_loopLines]
      simp only [List.forall_mem_cons, List.forall_mem_append]
      exact ⟨hlabel _ _, hopcode _, hjump (.inl rfl) _ _, ihb n, hjump (.inr rfl) _ _, hlabel _ _, ih _⟩

/-- The text of a whole program around given lines. An empty program leaves an empty line. -/
theorem splitLines_whole {lines : List (List Char)}
    (h : ∀ line ∈ lines, ∀ c ∈ line, isLineEnd c = false) (cells : Nat) :
    splitLines (ended (prologue cells ++ joinLines lines :: epilogue)) =
      prologue cells ++ lines ++ ((if lines = [] then [[]] else []) ++ epilogue) := by
  have hbody : ended (prologue cells ++ joinLines lines :: epilogue) =
      ended (prologue cells ++ lines ++ ((if lines = [] then [[]] else []) ++ epilogue)) := by
    have hlines : (if lines = [] then [[]] else lines) = lines ++ if lines = [] then [[]] else [] := by
      split <;> simp [*]
    rw [ended_append, ended_cons, ← List.singleton_append, ← List.append_assoc (joinLines lines),
      joinLines_append, hlines]
    simp only [ended_append, List.append_assoc]
  have hall (lines : List (List Char)) (h : lines.all (·.all (isLineEnd · = false)) = true) :
      ∀ line ∈ lines, ∀ c ∈ line, isLineEnd c = false := fun line hline =>
    forall_mem_of_all (List.all_eq_true.1 h line hline)
  have hprologue : ∀ line ∈ prologue cells, ∀ c ∈ line, isLineEnd c = false := by
    rw [prologue, List.forall_mem_append, List.forall_mem_cons, List.forall_mem_append]
    refine ⟨hall heading (by decide), ⟨forall_mem_of_all (by decide), ?_⟩, hall startup (by decide)⟩
    exact forall_mem_hex (by decide) cells
  rw [hbody]
  refine splitLines_ended ?_
  simp only [List.forall_mem_append]
  refine ⟨⟨hprologue, h⟩, ?_, hall epilogue (by decide)⟩
  split <;> simp

/-! ## The instructions of the template -/

/-- The listing of the lines that reserve and clear the tape. -/
def clearing : Listing where
  instructions :=
    [⟨8, "sub".toList, ["rsp".toList, "rcx".toList]⟩, ⟨9, "mov".toList, ["rbx".toList, "rsp".toList]⟩,
      ⟨10, "mov".toList, ["rdi".toList, "rsp".toList]⟩,
      ⟨12, "mov".toList, ["byte [rdi]".toList, hex 0]⟩, ⟨13, "add".toList, ["rdi".toList, hex 1]⟩,
      ⟨14, "sub".toList, ["rcx".toList, hex 1]⟩, ⟨15, "jne".toList, [".clear".toList]⟩]
  labels := [(".clear".toList, 4)]

def opening (cells : Nat) : Listing where
  instructions := ⟨7, "mov".toList, ["rcx".toList, hex cells]⟩ :: clearing.instructions
  labels := ("_start".toList, 0) :: clearing.labels

theorem ofLines_prologue (cells : Nat) : Listing.ofLines (prologue cells) = opening cells := by
  have hheading : Listing.ofLinesFrom 1 0 heading = { labels := [("_start".toList, 0)] } := by
    decide +kernel
  have hstartup : Listing.ofLinesFrom 8 1 startup = clearing := by decide +kernel
  have htext : "\tmov\trcx, ".toList ++ hex cells =
      ((Opcode.set .rcx cells).line { stackSize := cells }).text := by
    show _ = '\t' :: "mov".toList ++ '\t' :: operandText ["rcx".toList, hex cells]
    rw [operandText_cons, operandText_single]
    simp
  have hlength : heading.length = 6 := rfl
  rw [Listing.ofLines, prologue, Listing.ofLinesFrom_append, hheading, hlength, htext,
    Listing.ofLinesFrom_instruction (Opcode.ofLine_line (Convention.names_default cells) _),
    List.length_nil, hstartup]
  rfl

theorem ofLinesFrom_epilogue (line count : Nat) :
    Listing.ofLinesFrom line count epilogue =
      { instructions := [⟨line, "mov".toList, ["rax".toList, hex 60]⟩,
          ⟨line + 1, "xor".toList, ["rdi".toList, "rdi".toList]⟩, ⟨line + 2, "syscall".toList, []⟩] } := by
  have hmove : Statement.ofLine "\tmov\trax, 0x3c".toList =
      .instruction "mov".toList ["rax".toList, hex 60] := by decide
  have hclear : Statement.ofLine "\txor\trdi, rdi".toList =
      .instruction "xor".toList ["rdi".toList, "rdi".toList] := by decide
  have hcall : Statement.ofLine "\tsyscall".toList = .instruction "syscall".toList [] := by decide
  rw [epilogue, Listing.ofLinesFrom_instruction hmove, Listing.ofLinesFrom_instruction hclear,
    Listing.ofLinesFrom_instruction hcall]
  rfl

end Brainfuck
