import Brainfuck.Proofs.Acceptance
import Brainfuck.Proofs.DeadCode

/-!
# Texts that cancel

When nothing is generated for a program can be told from its text alone: the loops do not matter, only
the blocks of changes and of moves between other characters.

* `MaximalBlock chars text block` : a block of the given characters that cannot be extended on either
  side; the blocks of two texts stay apart where they do not join (`maximalBlock_append`);
* `Cancels` : nothing is read or written, and every such block has no effect in sum
  (`cancels_append`, `cancels_bracket`, `cancels_row`);
* `Generates.generate_eq_nil_iff` : nothing is generated for a block exactly if it has no instructions;
* `generate_eq_nil_iff_cancels` : nothing is generated exactly for texts that cancel.
-/

namespace Brainfuck

open Codegen

/-! ## Maximal blocks -/

/-- A part of the text that consists of the given characters, with none of them on either side. -/
def MaximalBlock (chars text block : List Char) : Prop :=
  ∃ before after, text = before ++ block ++ after ∧ block ≠ [] ∧ (∀ c ∈ block, c ∈ chars) ∧
    (∀ c ∈ before.getLast?, c ∉ chars) ∧ ∀ c ∈ after.head?, c ∉ chars

/-- No block of the given characters reaches from one text into the other. -/
def Divided (chars x y : List Char) : Prop :=
  ∀ c ∈ x.getLast?, ∀ d ∈ y.head?, c ∈ chars → d ∉ chars

variable {chars x y block text : List Char}

/-- A block of two texts that are divided is a block of one of them. -/
theorem maximalBlock_append (h : Divided chars x y) :
    MaximalBlock chars (x ++ y) block ↔ MaximalBlock chars x block ∨ MaximalBlock chars y block := by
  constructor
  · rintro ⟨before, after, htext, hne, hall, hbefore, hafter⟩
    rw [List.append_assoc] at htext
    rcases List.append_eq_append_iff.1 htext with ⟨between, rfl, rfl⟩ | ⟨start, rfl, hrest⟩
    · refine .inr ⟨between, after, by rw [List.append_assoc], hne, hall, fun c hc => ?_, hafter⟩
      apply hbefore c
      rw [List.getLast?_append, hc]
      rfl
    rcases List.append_eq_append_iff.1 hrest with ⟨between, rfl, rfl⟩ | ⟨others, rfl, rfl⟩
    · refine .inl ⟨before, between, by rw [List.append_assoc], hne, hall, hbefore, fun c hc => ?_⟩
      apply hafter c
      rw [List.head?_append, hc]
      rfl
    -- the texts meet inside the block, so one of them has no part of it
    rcases List.eq_nil_or_concat start with rfl | ⟨start, c, rfl⟩
    · exact .inr ⟨[], after, rfl, hne, hall, nofun, hafter⟩
    cases others with
    | nil =>
      rw [List.append_nil] at hne hall ⊢
      exact .inl ⟨before, [], (List.append_nil _).symm, hne, hall, hbefore, nofun⟩
    | cons d others =>
      exact absurd (hall d (by simp)) (h c (by simp) d rfl (hall c (by simp)))
  · rintro (⟨before, after, rfl, hne, hall, hbefore, hafter⟩ | ⟨before, after, rfl, hne, hall, hbefore, hafter⟩)
    · refine ⟨before, after ++ y, by rw [List.append_assoc _ after], hne, hall, hbefore, fun d hd => ?_⟩
      cases after with
      | cons c after => exact hafter d hd
      | nil =>
        obtain ⟨start, c, rfl⟩ := (List.eq_nil_or_concat block).resolve_left hne
        exact h c (by simp) d hd (hall c (by simp))
    · refine ⟨x ++ before, after, by simp only [List.append_assoc], hne, hall, fun c hc => ?_, hafter⟩
      rcases List.eq_nil_or_concat before with rfl | ⟨before, e, rfl⟩
      · rw [List.append_nil] at hc
        cases block with
        | nil => contradiction
        | cons d block =>
          intro hmem
          exact h c hc d rfl hmem (hall d List.mem_cons_self)
      · apply hbefore c
        simpa using hc

theorem maximalBlock_iff_eq (hne : text ≠ []) (hall : ∀ c ∈ text, c ∈ chars) :
    MaximalBlock chars text block ↔ block = text := by
  constructor
  · rintro ⟨before, after, rfl, -, -, hbefore, hafter⟩
    have hstart : before = [] := by
      rcases List.eq_nil_or_concat before with rfl | ⟨before, c, rfl⟩
      · rfl
      · exact absurd (hall c (by simp)) (hbefore c (by simp))
    have hend : after = [] := by
      cases after with
      | nil => rfl
      | cons d after => exact absurd (hall d (by simp)) (hafter d rfl)
    rw [hstart, hend, List.nil_append, List.append_nil]
  · rintro rfl
    exact ⟨[], [], by simp, hne, hall, nofun, nofun⟩

theorem not_maximalBlock (h : ∀ c ∈ text, c ∉ chars) : ¬ MaximalBlock chars text block := by
  rintro ⟨before, after, rfl, hne, hall, -, -⟩
  obtain ⟨c, hc⟩ := List.exists_mem_of_ne_nil block hne
  exact h c (by simp [hc]) (hall c hc)

/-! ## Cancelling -/

/-- Nothing is read or written, changes add up to a multiple of 256 in every block of them, and there are
as many moves one way as the other in every block of moves. -/
structure Cancels (text : List Char) : Prop where
  output : '.' ∉ text
  input : ',' ∉ text
  changes : ∀ block, MaximalBlock "+-".toList text block →
    (256 : Int) ∣ block.count '+' - block.count '-'
  moves : ∀ block, MaximalBlock "><".toList text block → block.count '>' = block.count '<'

theorem cancels_append (hchanges : Divided "+-".toList x y) (hmoves : Divided "><".toList x y) :
    Cancels (x ++ y) ↔ Cancels x ∧ Cancels y := by
  constructor
  · rintro ⟨houtput, hinput, hc, hm⟩
    rw [List.mem_append, not_or] at houtput hinput
    simp only [maximalBlock_append hchanges] at hc
    simp only [maximalBlock_append hmoves] at hm
    exact ⟨⟨houtput.1, hinput.1, fun block h => hc block (.inl h), fun block h => hm block (.inl h)⟩,
      ⟨houtput.2, hinput.2, fun block h => hc block (.inr h), fun block h => hm block (.inr h)⟩⟩
  · rintro ⟨⟨houtput, hinput, hc, hm⟩, ⟨houtput', hinput', hc', hm'⟩⟩
    refine ⟨by simp [houtput, houtput'], by simp [hinput, hinput'], fun block h => ?_, fun block h => ?_⟩
    · exact ((maximalBlock_append hchanges).1 h).elim (hc block) (hc' block)
    · exact ((maximalBlock_append hmoves).1 h).elim (hm block) (hm' block)

theorem cancels_nil : Cancels [] :=
  ⟨by simp, by simp, fun _ h => (not_maximalBlock (by simp) h).elim,
    fun _ h => (not_maximalBlock (by simp) h).elim⟩

theorem cancels_bracket {bracket : Char} (h : bracket = '[' ∨ bracket = ']') :
    Cancels (x ++ bracket :: y) ↔ Cancels x ∧ Cancels y := by
  have hnone : ∀ c ∈ [bracket], c ∉ "+-".toList ∧ c ∉ "><".toList ∧ c ≠ '.' ∧ c ≠ ',' := by
    rcases h with rfl | rfl <;> simp
  have hbracket : Cancels [bracket] := by
    refine ⟨fun hmem => ?_, fun hmem => ?_, fun _ hblock => ?_, fun _ hblock => ?_⟩
    · exact (hnone _ hmem).2.2.1 rfl
    · exact (hnone _ hmem).2.2.2 rfl
    · exact (not_maximalBlock (fun c hc => (hnone c hc).1) hblock).elim
    · exact (not_maximalBlock (fun c hc => (hnone c hc).2.1) hblock).elim
  have hfirst : bracket ∈ [bracket] := List.mem_singleton_self bracket
  rw [cancels_append (x := x) (y := bracket :: y), ← List.singleton_append, cancels_append]
  · simp [hbracket]
  · rintro c hc d - hmem
    obtain rfl : c = bracket := by simpa using hc.symm
    exact absurd hmem (hnone c hfirst).1
  · rintro c hc d - hmem
    obtain rfl : c = bracket := by simpa using hc.symm
    exact absurd hmem (hnone c hfirst).2.1
  · rintro c - d hd -
    cases hd
    exact (hnone bracket hfirst).1
  · rintro c - d hd -
    cases hd
    exact (hnone bracket hfirst).2.1

theorem cancels_changes (hne : text ≠ []) (hall : ∀ c ∈ text, c ∈ "+-".toList) :
    Cancels text ↔ (256 : Int) ∣ text.count '+' - text.count '-' := by
  have hnot : ∀ c ∈ "+-".toList, c ∉ "><".toList ∧ c ≠ '.' ∧ c ≠ ',' := by simp
  constructor
  · intro h
    exact h.changes text ((maximalBlock_iff_eq hne hall).2 rfl)
  · intro h
    refine ⟨fun hmem => (hnot _ (hall _ hmem)).2.1 rfl, fun hmem => (hnot _ (hall _ hmem)).2.2 rfl,
      fun block hblock => ?_, fun block hblock => ?_⟩
    · rwa [(maximalBlock_iff_eq hne hall).1 hblock]
    · exact (not_maximalBlock (fun c hc => (hnot c (hall c hc)).1) hblock).elim

theorem cancels_moves (hne : text ≠ []) (hall : ∀ c ∈ text, c ∈ "><".toList) :
    Cancels text ↔ text.count '>' = text.count '<' := by
  have hnot : ∀ c ∈ "><".toList, c ∉ "+-".toList ∧ c ≠ '.' ∧ c ≠ ',' := by simp
  constructor
  · intro h
    exact h.moves text ((maximalBlock_iff_eq hne hall).2 rfl)
  · intro h
    refine ⟨fun hmem => (hnot _ (hall _ hmem)).2.1 rfl, fun hmem => (hnot _ (hall _ hmem)).2.2 rfl,
      fun block hblock => ?_, fun block hblock => ?_⟩
    · exact (not_maximalBlock (fun c hc => (hnot c (hall c hc)).1) hblock).elim
    · rwa [(maximalBlock_iff_eq hne hall).1 hblock]

/-! ## Rows -/

theorem count_sub_count {up down : Char} (h : up ≠ down) (ups : List Bool) :
    (((ups.map fun u => if u then up else down).count up : Nat) : Int) -
      (ups.map fun u => if u then up else down).count down = net ups := by
  induction ups with
  | nil => rfl
  | cons u ups ih =>
    rw [net] at ih ⊢
    rw [List.map_cons, List.map_cons, List.sum_cons, ← ih]
    cases u
    · simp [h.symm]
      omega
    · simp [h]
      omega

theorem mem_of_mem_ups {up down c : Char} {ups : List Bool}
    (h : c ∈ ups.map fun u => if u then up else down) : c ∈ [up, down] := by
  obtain ⟨u, -, rfl⟩ := List.mem_map.1 h
  cases u <;> simp

theorem text_change (ups : List Bool) :
    (Batch.row (.change ups)).text = ups.map fun up => if up then '+' else '-' :=
  map_char_ups _ _ ups

theorem text_shift (ups : List Bool) :
    (Batch.row (.shift ups)).text = ups.map fun up => if up then '>' else '<' :=
  map_char_ups _ _ ups

theorem mem_row {r : Row} {c : Char} (h : c ∈ (Batch.row r).text) : c ∈ "+-".toList ∨ c ∈ "><".toList := by
  cases r with
  | change ups =>
    rw [text_change] at h
    exact .inl (mem_of_mem_ups h)
  | shift ups =>
    rw [text_shift] at h
    exact .inr (mem_of_mem_ups h)

/-- A row cancels exactly if it has no instruction. -/
theorem cancels_row {r : Row} (hne : r.commands ≠ []) : Cancels (Batch.row r).text ↔ r.code = [] := by
  have htext : (Batch.row r).text ≠ [] := by
    simpa [Batch.text, Batch.commands] using hne
  have hcode {make : Bool → Nat → Opcode} {delta : Int} {amount : Nat} :
      adjustment make delta amount = [] ↔ amount = 0 :=
    ⟨adjustment_eq_nil, fun h => by rw [adjustment, if_pos h]⟩
  cases r with
  | change ups =>
    rw [text_change] at htext ⊢
    rw [cancels_changes htext (fun c hc => mem_of_mem_ups hc), count_sub_count (by decide), Row.code,
      hcode]
    omega
  | shift ups =>
    have hcount := count_sub_count (show '>' ≠ '<' by decide) ups
    rw [text_shift] at htext ⊢
    rw [cancels_moves htext (fun c hc => mem_of_mem_ups hc), Row.code, hcode]
    omega

/-! ## Generation -/

theorem Generates.generate_eq_nil_iff {generator : Generator} {b : Block} (h : Generates generator b) :
    generator.generate b.program.text = .ok [] ↔ b.code = [] := by
  rw [h.generate, Except.ok.injEq, b.lines_eq_nil_iff]

theorem not_class_of_classRun? {q : Char → Bool} {run rest : List Char}
    (h : classRun? q (run ++ rest) = some run) : ∀ d ∈ rest.head?, q d = false := by
  have htake := classRun?_eq_some h
  have hall : ∀ c ∈ run, q c = true := by
    intro c hc
    rw [htake] at hc
    exact List.mem_takeWhile_imp hc
  rw [List.takeWhile_append_of_pos hall, List.self_eq_append_right] at htake
  intro d hd
  obtain ⟨rest, rfl⟩ : ∃ others, rest = d :: others := by
    cases rest with
    | nil => contradiction
    | cons e others => exact ⟨others, by rw [Option.some.inj hd]⟩
  rw [List.takeWhile_eq_nil_iff] at htake
  simpa using htake (by simp)

/-- A row is taken up to the next character of another kind, so no block reaches beyond it. -/
theorem divided_row {r : Row} {rest : List Char}
    (hselect : select Rule.standard ((Batch.row r).text ++ rest) =
      .ok (some ⟨(Batch.row r).text, r.rule⟩)) :
    Divided "+-".toList (Batch.row r).text rest ∧ Divided "><".toList (Batch.row r).text rest := by
  obtain ⟨-, hrecognise, -⟩ := recognise_of_select hselect
  have hlast {c : Char} (hc : c ∈ (Batch.row r).text.getLast?) : c ∈ (Batch.row r).text :=
    List.mem_of_getLast? hc
  have hclasses : ∀ c ∈ "+-".toList, c ∉ "><".toList := by simp
  cases r with
  | change ups =>
    have hnext := not_class_of_classRun? (Except.ok.inj hrecognise)
    rw [text_change] at hlast ⊢
    constructor
    · intro c _ d hd _ hmem
      have hnot := hnext d hd
      simp_all [isChange]
    · intro c hc d _ hmem
      exact absurd hmem (hclasses c (mem_of_mem_ups (hlast hc)))
  | shift ups =>
    have hnext := not_class_of_classRun? (Except.ok.inj hrecognise)
    rw [text_shift] at hlast ⊢
    constructor
    · intro c hc d _ hmem
      exact absurd (mem_of_mem_ups (hlast hc)) (hclasses c hmem)
    · intro c _ d hd _ hmem
      have hnot := hnext d hd
      simp_all [isShift]

theorem Block.not_mem_of_code_eq_nil {b : Block} (h : b.code = []) :
    '.' ∉ b.program.text ∧ ',' ∉ b.program.text := by
  induction b with
  | done => exact ⟨List.not_mem_nil, List.not_mem_nil⟩
  | batch b rest ih =>
    obtain ⟨hb, hrest⟩ := List.append_eq_nil_iff.1 h
    have hrow : '.' ∉ b.text ∧ ',' ∉ b.text := by
      cases b with
      | print gaps => contradiction
      | read gaps => contradiction
      | row r => exact ⟨fun hmem => by simpa using mem_row hmem, fun hmem => by simpa using mem_row hmem⟩
    have htext : (Block.batch b rest).program.text = b.text ++ rest.program.text :=
      Program.text_after _ _
    rw [htext, List.mem_append, List.mem_append, not_or, not_or]
    exact ⟨⟨hrow.1, (ih hrest).1⟩, hrow.2, (ih hrest).2⟩
  | loop body rest ihb ih =>
    obtain ⟨hloop, hrest⟩ := List.append_eq_nil_iff.1 h
    have hbody := ihb (loopCode_eq_nil hloop)
    simp [program, Program.text, hbody, ih hrest]

/-- Nothing is generated for a tree exactly if its text cancels. -/
theorem generate_text_eq_nil_iff {generator : Generator} (hrules : generator.rules = Rule.standard)
    (p : Program) : generator.generate p.text = .ok [] ↔ Cancels p.text := by
  generalize hlen : p.length = len
  induction len using Nat.strongRecOn generalizing p with
  | ind len ih =>
    have hblock (q : Program) (hlt : q.length < len) :
        ∃ b : Block, b.program = q ∧ Generates generator b ∧ (b.code = [] ↔ Cancels q.text) := by
      obtain ⟨b, rfl, hgen, -⟩ := exists_block hrules q
      exact ⟨b, rfl, hgen, by rw [← hgen.generate_eq_nil_iff, ih _ hlt _ rfl]⟩
    cases p with
    | done => exact iff_of_true rfl cancels_nil
    | loop body rest =>
      rw [Program.length_loop] at hlen
      obtain ⟨b, rfl, hgenb, hb⟩ := hblock body (by omega)
      obtain ⟨r, rfl, hgenr, hr⟩ := hblock rest (by omega)
      have htext : (Program.loop b.program r.program).text =
          [] ++ '[' :: (b.program.text ++ ']' :: r.program.text) := rfl
      have hloop : (Block.loop b r).code = [] ↔ b.code = [] ∧ r.code = [] := by
        rw [Block.code, List.append_eq_nil_iff]
        refine and_congr_left fun _ => ⟨Block.loopCode_eq_nil, fun h => ?_⟩
        rw [h, loopCode, if_pos rfl]
      rw [show Program.loop b.program r.program = (Block.loop b r).program from rfl,
        (generates_loop hrules hgenb hgenr).generate_eq_nil_iff, hloop, hb, hr, Block.program, htext,
        cancels_bracket (.inl rfl), cancels_bracket (.inr rfl)]
      simp [cancels_nil]
    | command c rest =>
      by_cases hc : isSilent c.char = true
      · obtain ⟨r, q, hne, hq, hselect⟩ := select_row hc rest
        have hlt : q.length < len := by
          have hpos := List.length_pos_iff.2 hne
          rw [← hlen, hq, Program.length_after]
          omega
        obtain ⟨b, rfl, hgen, hb⟩ := hblock q hlt
        rw [hq] at hselect
        have htext : (Program.after r.commands b.program).text = (Batch.row r).text ++ b.program.text :=
          Program.text_after _ _
        have hrow : Generates generator (.batch (.row r) b) :=
          generates_batch hne (hrules ▸ hselect) (fun depth n _ => gives_row _ _ r n) hgen
        rw [htext] at hselect
        obtain ⟨hchanges, hmoves⟩ := divided_row hselect
        rw [hq, show Program.after r.commands b.program = (Block.batch (.row r) b).program from rfl,
          hrow.generate_eq_nil_iff, Block.code, List.append_eq_nil_iff, List.map_eq_nil_iff, hb,
          Block.program, show (Batch.row r).commands = r.commands from rfl, htext,
          cancels_append hchanges hmoves, cancels_row hne]
        rfl
      · obtain ⟨b, hb, hgen, -⟩ := exists_block hrules (.command c rest)
        rw [← hb, hgen.generate_eq_nil_iff]
        have hmem : c.char ∈ b.program.text := by
          rw [hb]
          exact List.mem_cons_self
        refine iff_of_false (fun hcode => ?_) (fun hcancels => ?_)
        · obtain ⟨houtput, hinput⟩ := Block.not_mem_of_code_eq_nil hcode
          cases c
          case output => exact houtput hmem
          case input => exact hinput hmem
          all_goals exact hc rfl
        · cases c
          case output => exact hcancels.output hmem
          case input => exact hcancels.input hmem
          all_goals exact hc rfl

/-- Nothing is generated for a text without a flaw exactly if it cancels. -/
theorem generate_eq_nil_iff_cancels (convention : Convention) {text : List Char} (htext : flaw? text = none) :
    ({ convention } : Generator).generate text = .ok [] ↔ Cancels text := by
  obtain ⟨p, rfl⟩ := flaw?_eq_none_iff.1 htext
  exact generate_text_eq_nil_iff rfl p

/-- Loops around blocks that cancel, one of them by going round; and moves that would cancel if no changes
stood between them. -/
theorem generate_eq_nil_iff_cancels_nested :
    Cancels ('[' :: List.replicate 256 '-' ++ "[<>]+-]><".toList) ∧ ¬ Cancels "[>+-<]".toList := by
  constructor
  · have htext : flaw? ('[' :: List.replicate 256 '-' ++ "[<>]+-]><".toList) = none := by decide +kernel
    exact (generate_eq_nil_iff_cancels {} htext).1 (by decide +kernel)
  · have htext : flaw? "[>+-<]".toList = none := by decide +kernel
    exact mt (generate_eq_nil_iff_cancels {} htext).2 (by decide +kernel)

end Brainfuck
