import Brainfuck.Proofs.LabelSupply

/-!
# The labels of loops

The labels of a compiled program belong to its loops one by one. A loop whose inside is compiled to
nothing is dropped and has none; the others are numbered in the order in which they close.

* `liveLoops` : the loops of a text that are not dropped, as pairs of brackets;
* `Block.livePairs`, `filter_pairs` : they are those of the block that the text makes up;
* `Block.brackets` : their brackets in order, with the labels that stand for them (`perm_brackets`);
* `count_jumpTo` : to each label there is one jump;
* `resolves_block` : the labels of a loop stand for its test and for the place behind its jump back;
* `LoopLabels`, `labels_resolve` : all this of compiled programs, and that no label is defined twice
  however generation was started with one supply of numbers.
-/

namespace Brainfuck

open Machine Codegen

variable {convention : Convention} {pointer cache : Register}

/-! ## Live loops -/

/-- Whether lines are generated for the inside of a bracket pair of a text. -/
def isLive (generator : Generator) (text : List Char) (pair : Nat × Nat) : Bool :=
  match generator.generate ((text.take pair.2).drop (pair.1 + 1)) with
  | .ok (_ :: _) => true
  | _ => false

/-- The bracket pairs of a text whose inside is not compiled to nothing, in the order in which they
close. -/
def liveLoops (generator : Generator) (text : List Char) : List (Nat × Nat) :=
  (bracketPairs text).filter (isLive generator text)

theorem Program.pairwise_pairs (p : Program) (i : Nat) : (p.pairs i).Pairwise (·.2 < ·.2) := by
  induction p generalizing i with
  | done => exact .nil
  | command c p ih => exact ih (i + 1)
  | loop body p ihb ih =>
    have hlast {q : Program} {j : Nat} {pair : Nat × Nat} (h : pair ∈ q.pairs j) :
        j ≤ pair.2 ∧ pair.2 < j + q.length :=
      mem_ends_pairs (List.mem_flatMap.2 ⟨pair, h, by simp⟩)
    rw [pairs, List.pairwise_append, List.pairwise_cons]
    refine ⟨ihb _, ⟨fun pair hpair => ?_, ih _⟩, fun pair hpair pair' hpair' => ?_⟩
    · have := hlast hpair
      omega
    · have := hlast hpair
      rcases List.mem_cons.1 hpair' with rfl | hpair'
      · simp only
        omega
      · have := hlast hpair'
        omega

/-- A pair that closes inside another one comes before it. -/
theorem lt_of_closes_before {pairs : List (Nat × Nat)} (h : pairs.Pairwise (·.2 < ·.2)) {i j : Nat}
    {outer inner : Nat × Nat} (hi : pairs[i]? = some outer) (hj : pairs[j]? = some inner)
    (hlt : inner.2 < outer.2) : j < i := by
  obtain ⟨hi', rfl⟩ := List.getElem?_eq_some_iff.1 hi
  obtain ⟨hj', rfl⟩ := List.getElem?_eq_some_iff.1 hj
  by_contra hle
  rcases Nat.lt_or_eq_of_le (Nat.le_of_not_lt hle) with hij | rfl
  · have := List.pairwise_iff_getElem.1 h i j hi' hj' hij
    omega
  · omega

namespace Block

/-- The loops of a block that need instructions, with the positions of their brackets if the block
starts at position `a`. -/
def livePairs : (a : Nat) → Block → List (Nat × Nat)
  | _, done => []
  | a, batch b rest => rest.livePairs (a + b.commands.length)
  | a, loop body rest =>
    if body.code = [] then rest.livePairs (a + body.program.length + 2)
    else body.livePairs (a + 1) ++
      (a, a + body.program.length + 1) :: rest.livePairs (a + body.program.length + 2)

theorem length_livePairs (b : Block) (a : Nat) : (b.livePairs a).length = b.labels := by
  induction b generalizing a with
  | done => rfl
  | batch b rest ih => exact ih _
  | loop body rest ihb ih =>
    by_cases hnil : body.code = []
    · rw [livePairs, labels, if_pos hnil, if_pos hnil, ih]
    · rw [livePairs, labels, if_neg hnil, if_neg hnil, List.length_append, List.length_cons, ihb, ih]
      omega

theorem isLive_loop {generator : Generator} {body : Block} (hgen : Generates generator body)
    (before rest after : List Char) :
    isLive generator (before ++ ('[' :: body.program.text ++ ']' :: rest) ++ after)
      (before.length, before.length + body.program.length + 1) = decide (body.code ≠ []) := by
  have hinside : ((before ++ ('[' :: body.program.text ++ ']' :: rest) ++ after).take
      (before.length + body.program.length + 1)).drop (before.length + 1) = body.program.text :=
    take_drop_brackets before body.program.text rest after
  have hnil := body.lines_eq_nil_iff generator.convention 0
  rw [isLive, hinside, hgen.generate]
  cases hlines : body.lines generator.convention 0 with
  | nil => simp [hnil.1 hlines]
  | cons l ls =>
    have hcode : body.code ≠ [] := by
      intro h
      rw [hnil.2 h] at hlines
      contradiction
    simp [hcode]

/-- The live loops of a text are those of its block. The text of the block stands between two others,
since the pairs are those of a whole text. -/
theorem filter_pairs {generator : Generator} {b : Block} (hfaithful : b.Faithful generator)
    (before after : List Char) :
    (b.program.pairs before.length).filter (isLive generator (before ++ b.program.text ++ after)) =
      b.livePairs before.length := by
  induction b generalizing before after with
  | done => rfl
  | batch b rest ih =>
    have htext : before ++ (Block.batch b rest).program.text ++ after =
        (before ++ b.text) ++ rest.program.text ++ after := by
      simp [program, Batch.text]
    have hlength : (before ++ b.text).length = before.length + b.commands.length := by
      simp [Batch.text]
    rw [program, Program.pairs_after, ← program, htext, livePairs, ← hlength]
    exact ih hfaithful _ after
  | loop body rest ihb ih =>
    obtain ⟨hgen, hbody, hrest⟩ := hfaithful
    have hinner := ihb hbody (before ++ ['[']) (']' :: rest.program.text ++ after)
    have houter := ih hrest (before ++ '[' :: body.program.text ++ [']']) after
    have htext : (Block.loop body rest).program.text =
        '[' :: body.program.text ++ ']' :: rest.program.text := rfl
    have hbefore : before ++ ['['] ++ body.program.text ++ (']' :: rest.program.text ++ after) =
        before ++ ('[' :: body.program.text ++ ']' :: rest.program.text) ++ after := by simp
    have hafter : before ++ '[' :: body.program.text ++ [']'] ++ rest.program.text ++ after =
        before ++ ('[' :: body.program.text ++ ']' :: rest.program.text) ++ after := by simp
    have hstart : (before ++ ['[']).length = before.length + 1 := by simp
    have hend : (before ++ '[' :: body.program.text ++ [']']).length =
        before.length + body.program.length + 2 := by
      simp [Program.length, Nat.add_assoc]
    rw [hbefore, hstart] at hinner
    rw [hafter, hend] at houter
    rw [htext, program, Program.pairs, List.filter_append, List.filter_cons, isLive_loop hgen, hinner,
      houter, livePairs]
    by_cases hnil : body.code = []
    · -- what is inside of a dropped loop is dropped with it
      have hdead : body.livePairs (before.length + 1) = [] := by
        rw [← List.length_eq_zero_iff, length_livePairs, labels_of_code_eq_nil hnil]
      simp [hnil, hdead]
    · simp [hnil]

/-! ## Brackets and labels -/

/-- The brackets of a block's live loops in order, each with its position and with the label that stands
for it. -/
def brackets : (n a : Nat) → Block → List (Nat × List Char)
  | _, _, done => []
  | n, a, batch b rest => rest.brackets n (a + b.commands.length)
  | n, a, loop body rest =>
    if body.code = [] then rest.brackets n (a + body.program.length + 2)
    else (a, Rule.loopLabel (n + body.labels)) :: body.brackets n (a + 1) ++
      (a + body.program.length + 1, Rule.exitLabel (n + body.labels)) ::
        rest.brackets (n + body.labels + 1) (a + body.program.length + 2)

theorem map_snd_brackets (b : Block) (n a : Nat) :
    (b.brackets n a).map Prod.snd = (b.marks n).map fun mark => labelName mark.1 mark.2 := by
  induction b generalizing n a with
  | done => rfl
  | batch b rest ih => exact ih n _
  | loop body rest ihb ih =>
    by_cases hnil : body.code = []
    · rw [brackets, marks, if_pos hnil, if_pos hnil, ih]
    · rw [brackets, marks, if_neg hnil, if_neg hnil]
      simp only [List.map_cons, List.map_append, List.cons_append, ihb, ih]
      rfl

theorem mem_brackets {b : Block} {n a : Nat} {entry : Nat × List Char}
    (h : entry ∈ b.brackets n a) : a ≤ entry.1 ∧ entry.1 < a + b.program.length := by
  induction b generalizing n a with
  | done => contradiction
  | batch b rest ih =>
    have := ih h
    rw [program, Program.length_after]
    omega
  | loop body rest ihb ih =>
    rw [program, Program.length_loop]
    by_cases hnil : body.code = []
    · rw [brackets, if_pos hnil] at h
      have := ih h
      omega
    · simp only [brackets, hnil, if_false, List.cons_append, List.mem_cons, List.mem_append] at h
      rcases h with rfl | h | rfl | h
      · simp only
        omega
      · have := ihb h
        omega
      · simp only
        omega
      · have := ih h
        omega

theorem pairwise_brackets (b : Block) (n a : Nat) : (b.brackets n a).Pairwise (·.1 < ·.1) := by
  induction b generalizing n a with
  | done => exact .nil
  | batch b rest ih => exact ih n _
  | loop body rest ihb ih =>
    by_cases hnil : body.code = []
    · rw [brackets, if_pos hnil]
      exact ih n _
    · rw [brackets, if_neg hnil, List.cons_append, List.pairwise_cons, List.pairwise_append,
        List.pairwise_cons]
      refine ⟨fun entry hentry => ?_, ihb n _, ⟨fun entry hentry => ?_, ih _ _⟩,
        fun entry hentry entry' hentry' => ?_⟩
      · rcases List.mem_append.1 hentry with hentry | hentry
        · have := mem_brackets hentry
          omega
        · rcases List.mem_cons.1 hentry with rfl | hentry
          · simp only
            omega
          · have := mem_brackets hentry
            omega
      · have := mem_brackets hentry
        omega
      · have := mem_brackets hentry
        rcases List.mem_cons.1 hentry' with rfl | hentry'
        · simp only
          omega
        · have := mem_brackets hentry'
          omega

end Block

/-- The brackets of loops with the labels that stand for them, if the loops are numbered from `n` on. -/
def numberedBrackets (n : Nat) (loops : List (Nat × Nat)) : List (Nat × List Char) :=
  (loops.zipIdx n).flatMap fun (pair, i) => [(pair.1, Rule.loopLabel i), (pair.2, Rule.exitLabel i)]

/-- Live loops are numbered in the order in which they close. -/
theorem Block.perm_brackets (b : Block) (n a : Nat) :
    (b.brackets n a).Perm (numberedBrackets n (b.livePairs a)) := by
  induction b generalizing n a with
  | done => exact .nil
  | batch b rest ih => exact ih n _
  | loop body rest ihb ih =>
    by_cases hnil : body.code = []
    · rw [brackets, livePairs, if_pos hnil, if_pos hnil]
      exact ih n _
    · have hsplit : numberedBrackets n ((Block.loop body rest).livePairs a) =
          numberedBrackets n (body.livePairs (a + 1)) ++
            (a, Rule.loopLabel (n + body.labels)) ::
              (a + body.program.length + 1, Rule.exitLabel (n + body.labels)) ::
                numberedBrackets (n + body.labels + 1)
                  (rest.livePairs (a + body.program.length + 2)) := by
        rw [livePairs, if_neg hnil, numberedBrackets, List.zipIdx_append, List.zipIdx_cons,
          length_livePairs, List.flatMap_append, List.flatMap_cons]
        rfl
      rw [hsplit, brackets, if_neg hnil]
      refine .trans (.cons _ ?_) List.perm_middle.symm
      exact (ihb n _).append (.cons _ (ih _ _))

theorem map_snd_numberedBrackets (n : Nat) (loops : List (Nat × Nat)) :
    (numberedBrackets n loops).map Prod.snd =
      (List.range' n loops.length).flatMap fun i => [Rule.loopLabel i, Rule.exitLabel i] := by
  induction loops generalizing n with
  | nil => rfl
  | cons pair loops ih =>
    have hcons : numberedBrackets n (pair :: loops) =
        (pair.1, Rule.loopLabel n) :: (pair.2, Rule.exitLabel n) :: numberedBrackets (n + 1) loops := by
      rw [numberedBrackets, List.zipIdx_cons, List.flatMap_cons]
      rfl
    rw [hcons, List.map_cons, List.map_cons, ih, List.length_cons, List.range'_succ,
      List.flatMap_cons]
    rfl

/-! ## Jumps -/

theorem jumpTo_injective {e e' : Bool} {i j : Nat} (h : jumpTo e i = jumpTo e' j) : e = e' ∧ i = j := by
  have hoperands : [labelName e i] = [labelName e' j] := (Line.instruction.inj h).2
  exact labelName_injective (List.head_eq_of_cons_eq hoperands)

theorem Opcode.line_ne_jumpTo (o : Opcode) (e : Bool) (i : Nat) : o.line convention ≠ jumpTo e i := by
  intro h
  have hmnemonic : o.mnemonic = (if e then "je" else "jmp").toList := (Line.instruction.inj h).1
  have hnone := o.condition_mnemonic
  rw [hmnemonic] at hnone
  cases e <;> contradiction

namespace Block

theorem mem_marks_iff (b : Block) (n : Nat) (e : Bool) (i : Nat) :
    (e, i) ∈ b.marks n ↔ n ≤ i ∧ i < n + b.labels := by
  refine ⟨mem_marks, fun h => ?_⟩
  induction b generalizing n with
  | done =>
    rw [labels] at h
    omega
  | batch b rest ih => exact ih n h
  | loop body rest ihb ih =>
    by_cases hnil : body.code = []
    · rw [labels, if_pos hnil] at h
      rw [marks, if_pos hnil]
      exact ih n h
    · rw [labels, if_neg hnil] at h
      rw [marks, if_neg hnil, List.cons_append, List.mem_cons, List.mem_append, List.mem_cons]
      rcases Nat.lt_trichotomy i (n + body.labels) with hlt | rfl | hlt
      · exact .inr (.inl (ihb n ⟨h.1, hlt⟩))
      · cases e
        · exact .inl rfl
        · exact .inr (.inr (.inl rfl))
      · exact .inr (.inr (.inr (ih _ ⟨by omega, by omega⟩)))

/-- Every label of a loop is jumped to at the other end of it, and nowhere else. -/
theorem count_jumpTo (b : Block) (n : Nat) (e : Bool) (i : Nat) :
    (b.lines convention n).count (jumpTo e i) = (b.marks n).count (!e, i) := by
  induction b generalizing n with
  | done => rfl
  | batch b rest ih =>
    have hnone : (b.code.map (Opcode.line convention)).count (jumpTo e i) = 0 := by
      refine List.count_eq_zero_of_not_mem fun h => ?_
      obtain ⟨o, -, ho⟩ := List.mem_map.1 h
      exact o.line_ne_jumpTo e i ho
    rw [lines, List.count_append, hnone, Nat.zero_add, ih, marks]
  | loop body rest ihb ih =>
    by_cases hnil : body.code = []
    · rw [lines, marks, if_pos hnil, if_pos hnil, ih]
    · have hjump : ∀ e' m, (jumpTo e' m == jumpTo e i) = ((!e', m) == (!e, i)) := by
        intro e' m
        rw [Bool.eq_iff_iff, beq_iff_eq, beq_iff_eq, Prod.mk.injEq, Bool.not_inj_iff]
        refine ⟨jumpTo_injective, ?_⟩
        rintro ⟨rfl, rfl⟩
        rfl
      have hlabel : ∀ name, (Line.label name == jumpTo e i) = false := fun _ => rfl
      have htest : (Opcode.test.line convention == jumpTo e i) = false := by
        rw [beq_eq_false_iff_ne]
        exact Opcode.test.line_ne_jumpTo e i
      rw [lines, marks, if_neg hnil, if_neg hnil, loopLines_eq]
      simp only [List.cons_append, List.append_assoc, List.count_cons, List.count_append, List.nil_append,
        hjump, hlabel, htest, ihb, ih, Bool.not_true, Bool.not_false]
      simp only [Bool.false_eq_true, if_false]
      omega

theorem count_marks (b : Block) (n : Nat) (e : Bool) (i : Nat) :
    (b.marks n).count (e, i) = if n ≤ i ∧ i < n + b.labels then 1 else 0 := by
  rw [(b.nodup_marks n).count]
  simp only [mem_marks_iff]

theorem exists_loopLines (convention : Convention) (b : Block) {n i : Nat}
    (h : n ≤ i ∧ i < n + b.labels) :
    ∃ before body after, b.lines convention n = before ++ (Rule.loopLines convention i body ++ after) := by
  induction b generalizing n with
  | done =>
    rw [labels] at h
    omega
  | batch b rest ih =>
    obtain ⟨before, body, after, hlines⟩ := ih h
    refine ⟨b.code.map (Opcode.line convention) ++ before, body, after, ?_⟩
    rw [lines, hlines, List.append_assoc]
  | loop body rest ihb ih =>
    by_cases hnil : body.code = []
    · rw [labels, if_pos hnil] at h
      rw [lines, if_pos hnil]
      exact ih h
    · rw [labels, if_neg hnil] at h
      rw [lines, if_neg hnil]
      rcases Nat.lt_trichotomy i (n + body.labels) with hlt | rfl | hlt
      · obtain ⟨before, inner, after, hlines⟩ := ihb ⟨h.1, hlt⟩
        rw [hlines, loopLines_eq]
        simp only [List.cons_append, List.append_assoc]
        exact ⟨_ :: _ :: _ :: before, inner, _, rfl⟩
      · exact ⟨[], _, _, rfl⟩
      · obtain ⟨before, inner, after, hlines⟩ := ih (show n + body.labels + 1 ≤ i ∧ _ by omega)
        refine ⟨Rule.loopLines convention (n + body.labels) (body.lines convention n) ++ before, inner,
          after, ?_⟩
        rw [hlines, List.append_assoc]

end Block

/-! ## Targets -/

/-- The labels of a loop stand for its test, behind which it is left, and for the place behind its jump
back. -/
def Resolves (convention : Convention) (listing : Listing) (i : Nat) : Prop :=
  ∃ head back : Nat,
    listing.target? (Rule.loopLabel i) = some head ∧
    (∃ line, listing.instructions[head]? =
      some ⟨line, "cmp".toList, [byteCell convention.pointerRegister, Text.hex 0]⟩) ∧
    (∃ line, listing.instructions[head + 1]? = some ⟨line, "je".toList, [Rule.exitLabel i]⟩) ∧
    (∃ line, listing.instructions[back]? = some ⟨line, "jmp".toList, [Rule.loopLabel i]⟩) ∧
    listing.target? (Rule.exitLabel i) = some (back + 1)

theorem resolves_block (names : convention.Names pointer cache) (b : Block) {i : Nat}
    (hi : i < b.labels) :
    Resolves convention (Listing.ofLines ((b.lines convention 0).map Line.text)) i := by
  have hnodup : ((Listing.ofLines ((b.lines convention 0).map Line.text)).labels.map Prod.fst).Nodup := by
    rw [Listing.ofLines, labels_block names]
    exact nodup_labelNames b 0
  obtain ⟨before, body, after, hlines⟩ :=
    b.exists_loopLines convention (show 0 ≤ i ∧ i < 0 + b.labels by omega)
  rw [hlines, Listing.ofLines, List.map_append, List.map_append, Listing.ofLinesFrom_append,
    ofLinesFrom_loop names rfl rfl, Nat.zero_add] at hnodup ⊢
  generalize Listing.ofLinesFrom 1 0 (before.map Line.text) = first at hnodup ⊢
  generalize 1 + (before.map Line.text).length = line at hnodup ⊢
  generalize Listing.ofLinesFrom _ _ (body.map Line.text) = inner at hnodup ⊢
  refine ⟨first.instructions.length, first.instructions.length + (2 + inner.instructions.length),
    Listing.target?_of_mem hnodup ?_, ⟨line + 1, ?_⟩, ⟨line + 2, ?_⟩, ⟨line + 3 + body.length, ?_⟩,
    Listing.target?_of_mem hnodup ?_⟩
  · simp [Listing.append, labelName]
  · rw [Listing.append, List.getElem?_append_right (Nat.le_refl _), Nat.sub_self]
    rfl
  · rw [Listing.append, List.getElem?_append_right (by omega), Nat.add_sub_cancel_left]
    rfl
  · rw [Listing.append, List.getElem?_append_right (by omega), Nat.add_sub_cancel_left, Nat.add_comm 2,
      List.getElem?_cons_succ, List.getElem?_cons_succ, List.getElem?_append_right (Nat.le_refl _),
      Nat.sub_self]
    rfl
  · simp [Listing.append, labelName, Nat.add_assoc]

/-! ## Compiled programs -/

/-- The labels of the written lines of a program, given by the bracket pairs of its loops. -/
structure LoopLabels (convention : Convention) (loops : List (Nat × Nat)) (texts : List (List Char)) :
    Prop where
  /-- For each loop there are two labels with its number, and there are no others. -/
  once : (texts.filter isLabelLine).Perm ((List.range loops.length).flatMap fun i =>
    [Rule.loopLabel i ++ [':'], Rule.exitLabel i ++ [':']])
  /-- They stand in the order of the brackets in the program. -/
  inOrder : ∃ brackets : List (Nat × List Char),
    brackets.Pairwise (·.1 < ·.1) ∧ brackets.Perm (numberedBrackets 0 loops) ∧
      texts.filter isLabelLine = brackets.map (·.2 ++ [':'])
  /-- To each of them there is one jump. -/
  jumps : ∀ i,
    texts.count (op "je" [Rule.exitLabel i]).text = (if i < loops.length then 1 else 0) ∧
    texts.count (op "jmp" [Rule.loopLabel i]).text = (if i < loops.length then 1 else 0)
  targets : ∀ i < loops.length, Resolves convention (Listing.ofLines texts) i
  /-- A loop inside another one has a smaller number. -/
  nested : ∀ (i j : Nat) (outer inner : Nat × Nat),
    loops[i]? = some outer → loops[j]? = some inner → outer.1 < inner.1 → inner.2 < outer.2 → j < i

theorem loopLabels_block (names : convention.Names pointer cache) {b : Block}
    (hfaithful : b.Faithful { convention }) :
    LoopLabels convention (liveLoops { convention } b.program.text)
      ((b.lines convention 0).map Line.text) := by
  have hloops : liveLoops { convention } b.program.text = b.livePairs 0 := by
    have := Block.filter_pairs hfaithful [] []
    rwa [List.nil_append, List.append_nil, List.length_nil, ← bracketPairs_text] at this
  have hlength : (b.livePairs 0).length = b.labels := b.length_livePairs 0
  have hgenerated : ∀ l ∈ b.lines convention 0, l.IsGenerated convention := isGenerated_block b 0
  have hlabels : ((b.lines convention 0).map Line.text).filter isLabelLine =
      (b.brackets 0 0).map (·.2 ++ [':']) := by
    rw [filter_isLabelLine names hgenerated, ← labels_ofLinesFrom names hgenerated 1 0,
      labels_block names, ← b.map_snd_brackets 0 0, List.map_map]
    rfl
  have hjumps : ∀ e i, ((b.lines convention 0).map Line.text).count (jumpTo e i).text =
      if i < (b.livePairs 0).length then 1 else 0 := by
    intro e i
    rw [count_map_text names hgenerated (.jump e i), b.count_jumpTo, b.count_marks, hlength]
    simp
  rw [hloops]
  refine ⟨?_, ⟨b.brackets 0 0, b.pairwise_brackets 0 0, b.perm_brackets 0 0, hlabels⟩,
    fun i => ⟨hjumps true i, hjumps false i⟩, fun i hi => resolves_block names b (hlength ▸ hi), ?_⟩
  · have hperm := ((b.perm_brackets 0 0).map Prod.snd).map (· ++ [':'])
    rw [map_snd_numberedBrackets, ← List.range_eq_range', List.map_map, List.map_flatMap] at hperm
    rw [hlabels]
    exact hperm
  · intro i j outer inner hi hj _ hlt
    refine lt_of_closes_before ?_ hi hj hlt
    rw [← hloops]
    refine List.Pairwise.filter _ ?_
    rw [bracketPairs_text]
    exact b.program.pairwise_pairs 0

/-- The labels of a compiled program are those of its live loops, each defined once and jumped to once, and
they lead to their own loop. With one supply of numbers, calls that may also fail and may be made for
any texts define no label twice. -/
theorem labels_resolve (names : convention.Names pointer cache) :
    (∀ text, flaw? text = none → ∃ lines, ({ convention } : Generator).generate text = .ok lines ∧
      LoopLabels convention (liveLoops { convention } text) (lines.map Line.text)) ∧
    ∀ calls progress,
      ((Listing.ofLines ((linesOf convention calls progress).map Line.text)).labels.map
        Prod.fst).Nodup := by
  refine ⟨fun text htext => ?_, fun calls progress => ?_⟩
  · obtain ⟨p, rfl⟩ := flaw?_eq_none_iff.1 htext
    obtain ⟨b, rfl, hgen, hfaithful⟩ :=
      exists_block (show ({ convention } : Generator).rules = _ from rfl) p
    exact ⟨_, hgen.generate, loopLabels_block names hfaithful⟩
  · obtain ⟨m, -, hnumbered⟩ : ∃ m, _ ∧ Numbered convention _ m _ := numbered_linesOf calls progress
    rw [Listing.ofLines, labels_ofLinesFrom names hnumbered.generated]
    exact hnumbered.labels

/-- Nested loops, one of which is dropped; and a call that fails behind a loop inside of its text, with
one that succeeds after it. -/
theorem labels_resolve_nested :
    (∃ lines, ({} : Generator).generate "[>[-]<-][+-]>[-[+]]".toList = .ok lines ∧
      LoopLabels {} [(2, 4), (0, 7), (15, 17), (13, 18)] (lines.map Line.text)) ∧
    ((Listing.ofLines ((linesOf {} [.translate Rule.loop (by simp [Rule.standard]) "[[-]x]".toList,
      .generate "[[-]]".toList] {}).map Line.text)).labels.map Prod.fst).Nodup := by
  obtain ⟨hprograms, hcalls⟩ := labels_resolve (Convention.names_default 30000)
  refine ⟨?_, hcalls _ _⟩
  have hlive : liveLoops {} "[>[-]<-][+-]>[-[+]]".toList = [(2, 4), (0, 7), (15, 17), (13, 18)] := by
    decide +kernel
  rw [← hlive]
  exact hprograms _ (by decide)

end Brainfuck
