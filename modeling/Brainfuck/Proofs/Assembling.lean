import Brainfuck.Proofs.Block
import Brainfuck.Proofs.Numerals

/-!
# From written lines to machine code

* `ofLinesFrom_append` : the listing of lines is made up of those of its parts;
* `Block.marks` : the labels of a block, which are all different (`nodup_marks`, `labelName_injective`);
* `Realises` : instructions of a listing have the effect of given ones, once labels are resolved;
* `realises_block` : the written form of a block has the effect of its code;
* `holds_block` : the code of a block stands in the code of lines that contain its written form.
-/

namespace Brainfuck

open Machine Codegen

/-! ## Listings -/

namespace Listing

theorem ofLinesFrom_label {text name : List Char} (h : Statement.ofLine text = .label name)
    (line count : Nat) (rest : List (List Char)) :
    ofLinesFrom line count (text :: rest) =
      { ofLinesFrom (line + 1) count rest with
        labels := (name, count) :: (ofLinesFrom (line + 1) count rest).labels } := by
  rw [ofLinesFrom, h]

theorem ofLinesFrom_instruction {text mnemonic : List Char} {operands : List (List Char)}
    (h : Statement.ofLine text = .instruction mnemonic operands) (line count : Nat)
    (rest : List (List Char)) :
    ofLinesFrom line count (text :: rest) =
      { ofLinesFrom (line + 1) (count + 1) rest with
        instructions := ⟨line, mnemonic, operands⟩ ::
          (ofLinesFrom (line + 1) (count + 1) rest).instructions } := by
  rw [ofLinesFrom, h]

def append (first second : Listing) : Listing :=
  ⟨first.instructions ++ second.instructions, first.labels ++ second.labels⟩

theorem ofLinesFrom_append (line count : Nat) (xs ys : List (List Char)) :
    ofLinesFrom line count (xs ++ ys) =
      (ofLinesFrom line count xs).append (ofLinesFrom (line + xs.length)
        (count + (ofLinesFrom line count xs).instructions.length) ys) := by
  induction xs generalizing line count with
  | nil => rfl
  | cons text xs ih =>
    have hline : line + (text :: xs).length = line + 1 + xs.length := by
      rw [List.length_cons]
      omega
    rw [hline, List.cons_append, ofLinesFrom, ofLinesFrom]
    cases Statement.ofLine text with
    | nothing => exact ih (line + 1) count
    | label name => simp only [ih, append, List.cons_append]
    | instruction mnemonic operands =>
      simp only [ih, append, List.cons_append, List.length_cons, Nat.add_comm 1, Nat.add_assoc]

/-- Where no name is defined twice, a label stands for the position of its definition. -/
theorem target?_of_mem {listing : Listing} (hn : (listing.labels.map Prod.fst).Nodup)
    {name : List Char} {position : Nat} (h : (name, position) ∈ listing.labels) :
    listing.target? name = some position := by
  obtain ⟨before, after, hlabels⟩ := List.append_of_mem h
  rw [target?, hlabels, List.lookup_eq_some_iff]
  refine ⟨after.reverse, before.reverse, by simp, fun entry hentry => ?_⟩
  rw [hlabels, List.map_append, List.map_cons] at hn
  have hnot := (List.nodup_cons.1 (List.nodup_append.1 hn).2.1).1
  rw [bne_iff_ne]
  rintro rfl
  exact hnot (List.mem_map.2 ⟨entry, List.mem_reverse.1 hentry, rfl⟩)

end Listing

/-! ## Labels -/

def labelName (atExit : Bool) (number : Nat) : List Char :=
  if atExit then Rule.exitLabel number else Rule.loopLabel number

theorem labelName_injective {e e' : Bool} {i j : Nat} (h : labelName e i = labelName e' j) :
    e = e' ∧ i = j := by
  have hsplit : ∀ e i, labelName e i =
      (if e then ".exit_".toList else ".loop_".toList) ++ Nat.toDigits 10 i := by
    intro e i
    cases e <;> rfl
  have hlength : (if e then ".exit_".toList else ".loop_".toList).length =
      (if e' then ".exit_".toList else ".loop_".toList).length := by
    cases e <;> cases e' <;> rfl
  rw [hsplit, hsplit] at h
  obtain ⟨hkind, hdigits⟩ := List.append_inj h hlength
  refine ⟨?_, Text.toDigits_injective (by decide) (by decide) hdigits⟩
  cases e <;> cases e' <;> first | rfl | exact absurd hkind (by decide)

theorem labelName_plain (e : Bool) (i : Nat) :
    ∀ c ∈ labelName e i, Text.isBlank c = false ∧ c ≠ ',' ∧ c ≠ ';' ∧ c ≠ ':' := by
  have hdigits : ∀ c ∈ Nat.toDigits 10 i,
      Text.isBlank c = false ∧ c ≠ ',' ∧ c ≠ ';' ∧ c ≠ ':' := by
    have hall : ∀ c ∈ Text.hexDigits, Text.isBlank c = false ∧ c ≠ ',' ∧ c ≠ ';' ∧ c ≠ ':' :=
      Text.forall_mem_of_all (by decide)
    exact fun c hc => hall c (Text.mem_hexDigits_of_toDigits (by decide) (by decide) hc)
  cases e
  · exact List.forall_mem_append.2 ⟨Text.forall_mem_of_all (by decide), hdigits⟩
  · exact List.forall_mem_append.2 ⟨Text.forall_mem_of_all (by decide), hdigits⟩

theorem ofLine_labelName (e : Bool) (i : Nat) :
    Statement.ofLine (Line.label (labelName e i)).text = .label (labelName e i) :=
  Statement.ofLine_label fun c hc =>
    ⟨(labelName_plain e i c hc).1, (labelName_plain e i c hc).2.2.1⟩

theorem isOperand_labelName (e : Bool) (i : Nat) : IsOperand (labelName e i) := by
  refine .of_plain ?_ (labelName_plain e i)
  cases e <;> exact List.cons_ne_nil _ _

namespace Block

/-- The labels of a block whose numbers start with `n`, in order. -/
def marks : (n : Nat) → Block → List (Bool × Nat)
  | _, done => []
  | n, batch _ rest => rest.marks n
  | n, loop body rest =>
    if body.code = [] then rest.marks n
    else (false, n + body.labels) :: body.marks n ++
      (true, n + body.labels) :: rest.marks (n + body.labels + 1)

theorem mem_marks {b : Block} {n : Nat} {e : Bool} {i : Nat} (h : (e, i) ∈ b.marks n) :
    n ≤ i ∧ i < n + b.labels := by
  induction b generalizing n with
  | done => contradiction
  | batch _ rest ih => exact ih h
  | loop body rest ihb ih =>
    by_cases hnil : body.code = []
    · simp only [marks, labels, hnil, if_true] at h ⊢
      exact ih h
    · simp only [marks, labels, hnil, if_false, List.cons_append, List.mem_cons, List.mem_append,
        Prod.mk.injEq] at h ⊢
      rcases h with ⟨-, rfl⟩ | h | ⟨-, rfl⟩ | h
      · omega
      · have := ihb h
        omega
      · omega
      · have := ih h
        omega

theorem nodup_marks (b : Block) (n : Nat) : (b.marks n).Nodup := by
  induction b generalizing n with
  | done => exact List.nodup_nil
  | batch _ rest ih => exact ih n
  | loop body rest ihb ih =>
    by_cases hnil : body.code = []
    · rw [marks, if_pos hnil]
      exact ih n
    -- the numbers inside the loop are smaller than its own, and those behind it are larger
    have hbody : ∀ e i, (e, i) ∈ body.marks n → i < n + body.labels := fun e i h => (mem_marks h).2
    have hrest : ∀ e i, (e, i) ∈ rest.marks (n + body.labels + 1) → n + body.labels < i :=
      fun e i h => (mem_marks h).1
    rw [marks, if_neg hnil, List.cons_append, List.nodup_cons, List.nodup_append, List.nodup_cons]
    refine ⟨fun h => ?_, ihb n, ⟨fun h => ?_, ih _⟩, ?_⟩
    · rcases List.mem_append.1 h with h | h
      · exact Nat.lt_irrefl _ (hbody _ _ h)
      · rcases List.mem_cons.1 h with h | h
        · cases h
        · exact Nat.lt_irrefl _ (hrest _ _ h)
    · exact Nat.lt_irrefl _ (hrest _ _ h)
    · rintro ⟨e, i⟩ h ⟨e', j⟩ h' heq
      cases heq
      have := hbody e i h
      rcases List.mem_cons.1 h' with h' | h'
      · cases h'
        omega
      · have := hrest e i h'
        omega

end Block

theorem nodup_labelNames (b : Block) (n : Nat) :
    ((b.marks n).map fun mark => labelName mark.1 mark.2).Nodup := by
  refine List.pairwise_map.2 ((b.nodup_marks n).imp fun hne h => hne ?_)
  obtain ⟨he, hi⟩ := labelName_injective h
  exact Prod.ext he hi

/-! ## Resolved instructions -/

/-- The instructions of a listing from position `a` on have the effect of given ones. -/
inductive Realises (target? : List Char → Option Nat) (pointer cache : Register) :
    Nat → List Instruction → List Instr → Prop where
  | nil (a : Nat) : Realises target? pointer cache a [] []
  | cons {a : Nat} {x : Instruction} {instr : Instr} {xs : List Instruction} {instrs : List Instr}
      (first : ∀ s : State, s.pc = a →
        s.perform (Action.ofInstruction none target? x) = instr.exec pointer cache s)
      (rest : Realises target? pointer cache (a + 1) xs instrs) :
      Realises target? pointer cache a (x :: xs) (instr :: instrs)

variable {target? : List Char → Option Nat} {pointer cache : Register} {convention : Convention}

theorem Realises.length_eq {a : Nat} {xs : List Instruction} {instrs : List Instr}
    (h : Realises target? pointer cache a xs instrs) : xs.length = instrs.length := by
  induction h with
  | nil => rfl
  | cons _ _ ih => rw [List.length_cons, List.length_cons, ih]

theorem Realises.append {a : Nat} {xs ys : List Instruction} {is js : List Instr}
    (h : Realises target? pointer cache a xs is)
    (h' : Realises target? pointer cache (a + is.length) ys js) :
    Realises target? pointer cache a (xs ++ ys) (is ++ js) := by
  induction h with
  | nil => exact h'
  | cons first _ ih =>
    refine .cons first (ih ?_)
    rwa [List.length_cons, Nat.add_comm _ 1, ← Nat.add_assoc] at h'

theorem Realises.holds {full : Listing} {before xs after : List Instruction} {instrs : List Instr}
    (h : Realises full.target? pointer cache before.length xs instrs)
    (hfull : full.instructions = before ++ xs ++ after) :
    Holds (Code.ofListing none full) pointer cache before.length instrs := by
  generalize ha : before.length = a at h
  induction h generalizing before with
  | nil => trivial
  | @cons a x instr xs instrs first rest ih =>
    refine ⟨⟨x.line, _, ?_, first⟩, ?_⟩
    · rw [Code.ofListing_eq, hfull, ← ha]
      simp
    · have hnext : full.instructions = before ++ [x] ++ xs ++ after := by rw [hfull]; simp
      exact ih hnext (by simp [ha])

theorem perform_ofInstruction (names : convention.Names pointer cache) (o : Opcode) (line : Nat)
    (s : State) :
    s.perform (Action.ofInstruction none target? ⟨line, o.mnemonic, o.operands convention⟩) =
      (Instr.op o).exec pointer cache s := by
  rw [Action.ofInstruction, o.condition_mnemonic]
  exact o.perform_action names s

theorem perform_ofInstruction_jump {mnemonic name : List Char} {condition : Condition} {target : Nat}
    (hm : Condition.ofMnemonic? mnemonic = some condition) (ht : target? name = some target)
    (line : Nat) (s : State) :
    s.perform (Action.ofInstruction none target? ⟨line, mnemonic, [name]⟩) =
      .ok (if condition.holds s.zeroFlag then { s with pc := target } else s.advance) := by
  rw [Action.ofInstruction, hm]
  simp only [Action.ofJump, ht, State.perform]
  split <;> rfl

theorem realises_opcodes (names : convention.Names pointer cache) (os : List Opcode) (line a : Nat) :
    (Listing.ofLinesFrom line a ((os.map (Opcode.line convention)).map Line.text)).labels = [] ∧
      Realises target? pointer cache a
        (Listing.ofLinesFrom line a ((os.map (Opcode.line convention)).map Line.text)).instructions
        (os.map .op) := by
  induction os generalizing line a with
  | nil => exact ⟨rfl, .nil a⟩
  | cons o os ih =>
    obtain ⟨hlabels, hrest⟩ := ih (line + 1) (a + 1)
    rw [List.map_cons, List.map_cons, List.map_cons,
      Listing.ofLinesFrom_instruction (o.ofLine_line names)]
    exact ⟨hlabels, .cons (fun s _ => perform_ofInstruction names o line s) hrest⟩

theorem isMnemonic_jump {mnemonic : String} (h : mnemonic = "je" ∨ mnemonic = "jmp") :
    IsMnemonic mnemonic.toList := by
  rcases h with rfl | rfl <;>
    exact ⟨Text.forall_mem_of_all (by decide), by decide, by decide, by decide⟩

theorem ofLine_jump {mnemonic : String} (h : mnemonic = "je" ∨ mnemonic = "jmp") (e : Bool) (i : Nat) :
    Statement.ofLine (op mnemonic [labelName e i]).text =
      .instruction mnemonic.toList [labelName e i] :=
  Statement.ofLine_instruction (isMnemonic_jump h) (by simpa using isOperand_labelName e i)

theorem map_text_loopLines (convention : Convention) (number : Nat) (body : List Line)
    (rest : List (List Char)) :
    (Rule.loopLines convention number body).map Line.text ++ rest =
      (Line.label (labelName false number)).text :: (Opcode.test.line convention).text ::
        (op "je" [labelName true number]).text :: (body.map Line.text ++
          (op "jmp" [labelName false number]).text :: (Line.label (labelName true number)).text ::
            rest) := by
  simp only [Rule.loopLines, List.map_append, List.map_cons, List.map_nil, List.cons_append,
    List.nil_append, List.append_assoc]
  rfl

/-- The listing of a loop around that of its body, with more lines behind it. -/
theorem ofLinesFrom_loop (names : convention.Names pointer cache) {line a number : Nat}
    {body : List Line} {rest : List (List Char)} {inner later : Listing}
    (hinner : Listing.ofLinesFrom (line + 3) (a + 2) (body.map Line.text) = inner)
    (hlater : Listing.ofLinesFrom (line + 3 + body.length + 2)
      (a + 2 + inner.instructions.length + 1) rest = later) :
    Listing.ofLinesFrom line a ((Rule.loopLines convention number body).map Line.text ++ rest) =
      { instructions := ⟨line + 1, Opcode.test.mnemonic, Opcode.test.operands convention⟩ ::
          ⟨line + 2, "je".toList, [labelName true number]⟩ :: (inner.instructions ++
            ⟨line + 3 + body.length, "jmp".toList, [labelName false number]⟩ :: later.instructions)
        labels := (labelName false number, a) :: (inner.labels ++
          (labelName true number, a + 2 + inner.instructions.length + 1) :: later.labels) } := by
  subst hinner hlater
  rw [map_text_loopLines, Listing.ofLinesFrom_label (ofLine_labelName false number),
    Listing.ofLinesFrom_instruction (Opcode.test.ofLine_line names),
    Listing.ofLinesFrom_instruction (ofLine_jump (.inl rfl) true number),
    Listing.ofLinesFrom_append, Listing.ofLinesFrom_instruction (ofLine_jump (.inr rfl) false number),
    Listing.ofLinesFrom_label (ofLine_labelName true number), List.length_map]
  rfl

theorem labels_block (names : convention.Names pointer cache) (b : Block) (line a n : Nat) :
    (Listing.ofLinesFrom line a ((b.lines convention n).map Line.text)).labels.map Prod.fst =
      (b.marks n).map fun mark => labelName mark.1 mark.2 := by
  induction b generalizing line a n with
  | done => rfl
  | batch b rest ih =>
    obtain ⟨hlabels, -⟩ : _ ∧ Realises (fun _ => none) _ _ _ _ _ :=
      realises_opcodes names b.code line a
    rw [Block.lines, List.map_append, Listing.ofLinesFrom_append, Listing.append, hlabels]
    exact ih _ _ n
  | loop body rest ihb ih =>
    by_cases hnil : body.code = []
    · rw [Block.lines, Block.marks, if_pos hnil, if_pos hnil]
      exact ih line a n
    · rw [Block.lines, Block.marks, if_neg hnil, if_neg hnil, List.map_append,
        ofLinesFrom_loop names rfl rfl]
      simp only [List.map_cons, List.map_append, List.cons_append, ihb, ih]

/-- The written form of a block has the effect of its code, wherever it stands, if the labels are
resolved as it defines them. -/
theorem realises_block (names : convention.Names pointer cache) (b : Block) (line a n : Nat)
    (h : ∀ name position,
      (name, position) ∈ (Listing.ofLinesFrom line a ((b.lines convention n).map Line.text)).labels →
        target? name = some position) :
    Realises target? pointer cache a
      (Listing.ofLinesFrom line a ((b.lines convention n).map Line.text)).instructions b.code := by
  induction b generalizing line a n with
  | done => exact .nil a
  | batch b rest ih =>
    obtain ⟨-, hfirst⟩ : _ ∧ Realises target? _ _ _ _ _ := realises_opcodes names b.code line a
    rw [Block.lines, List.map_append, Listing.ofLinesFrom_append, Listing.append] at h ⊢
    rw [hfirst.length_eq] at h ⊢
    exact hfirst.append (ih _ _ n fun name position hmem =>
      h name position (List.mem_append_right _ hmem))
  | loop body rest ihb ih =>
    by_cases hnil : body.code = []
    · rw [Block.lines, if_pos hnil] at h ⊢
      rw [Block.code, loopCode, if_pos hnil]
      exact ih line a n h
    · rw [Block.lines, if_neg hnil, List.map_append, ofLinesFrom_loop names rfl rfl] at h ⊢
      rw [Block.code, loopCode_append hnil]
      have hbody := ihb (line + 3) (a + 2) n fun name position hmem =>
        h name position (List.mem_cons_of_mem _ (List.mem_append_left _ hmem))
      rw [hbody.length_eq] at h ⊢
      have hloop : target? (labelName false (n + body.labels)) = some a :=
        h _ _ List.mem_cons_self
      have hexit : target? (labelName true (n + body.labels)) =
          some (a + 2 + body.code.length + 1) :=
        h _ _ (List.mem_cons_of_mem _ (List.mem_append_right _ List.mem_cons_self))
      have hrest := ih _ _ _ fun name position hmem => h name position
        (List.mem_cons_of_mem _ (List.mem_append_right _ (List.mem_cons_of_mem _ hmem)))
      refine .cons (fun s _ => perform_ofInstruction names .test _ s)
        (.cons (fun s hpc => ?_) (hbody.append (.cons (fun s hpc => ?_) hrest)))
      · have hforward : a + 2 + body.code.length + 1 = s.pc + (body.code.length + 2) := by omega
        rw [perform_ofInstruction_jump rfl hexit, hforward]
        rfl
      · have hback : a = s.pc - (body.code.length + 2) := by omega
        rw [perform_ofInstruction_jump rfl (hback ▸ hloop)]
        rfl

/-- The code of a block stands in the code of lines that contain its written form, if no label is
defined twice. -/
theorem holds_block (names : convention.Names pointer cache) (b : Block)
    {before after : List (List Char)} {first last : Listing}
    (hfirst : Listing.ofLines before = first)
    (hlast : Listing.ofLinesFrom (1 + before.length + (b.lines convention 0).length)
      (first.instructions.length + b.code.length) after = last)
    (hnodup : (first.labels.map Prod.fst ++
      ((b.marks 0).map fun mark => labelName mark.1 mark.2) ++ last.labels.map Prod.fst).Nodup) :
    ∃ inner full : Listing,
      Listing.ofLines (before ++ (b.lines convention 0).map Line.text ++ after) = full ∧
      full = (first.append inner).append last ∧ inner.instructions.length = b.code.length ∧
      (full.labels.map Prod.fst).Nodup ∧
      Holds (Code.ofListing none full) pointer cache first.instructions.length b.code := by
  obtain ⟨inner, hinner⟩ : ∃ inner, Listing.ofLinesFrom (1 + before.length)
    first.instructions.length ((b.lines convention 0).map Line.text) = inner := ⟨_, rfl⟩
  have hnames := labels_block names b (1 + before.length) first.instructions.length 0
  rw [hinner] at hnames
  have hunique : (((first.append inner).append last).labels.map Prod.fst).Nodup := by
    simpa only [Listing.append, List.map_append, hnames] using hnodup
  have hrealises : Realises ((first.append inner).append last).target? pointer cache
      first.instructions.length inner.instructions b.code := by
    have htargets : ∀ name position, (name, position) ∈ inner.labels →
        ((first.append inner).append last).target? name = some position := fun name position hmem =>
      Listing.target?_of_mem hunique (List.mem_append_left _ (List.mem_append_right _ hmem))
    have h := realises_block names b _ _ 0 (hinner ▸ htargets)
    rwa [hinner] at h
  refine ⟨inner, _, ?_, rfl, hrealises.length_eq, hunique, hrealises.holds rfl⟩
  have hcount : (first.append inner).instructions.length =
      first.instructions.length + b.code.length := by
    rw [Listing.append, List.length_append, hrealises.length_eq]
  rw [Listing.ofLines] at hfirst ⊢
  rw [Listing.ofLinesFrom_append, Listing.ofLinesFrom_append, hfirst, Nat.zero_add, hinner, ← hlast,
    hcount, List.length_append, List.length_map, Nat.add_assoc 1, Nat.zero_add]

end Brainfuck
