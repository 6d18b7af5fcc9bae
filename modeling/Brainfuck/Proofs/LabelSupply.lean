import Brainfuck.Proofs.Acceptance
import Brainfuck.Proofs.WrittenLines

/-!
# The supply of label numbers

Nothing is assumed of the texts here: they may be no programs, and code generation may fail on them. A
failure keeps the numbers that were taken before it.

* `Numbered convention n m lines` : lines of generated code whose labels have numbers from `n` on and
  below `m`, no label twice (`Numbered.append`, `Numbered.loop`);
* `Draws x P` : code generation takes numbers from the supply, puts none back, and `P` relates the first
  number, the next free one and the value (`Draws.bind`);
* `numbers_standard`, `draws_fragment` : the rules of the language, and generators with them, give numbered
  lines;
* `Call`, `linesOf` : calls one after the other with one supply (`numbered_linesOf`).
-/

namespace Brainfuck

open Machine Codegen

variable {convention : Convention}

/-! ## Numbered lines -/

/-- Lines of generated code with labels from one number on and below another, none of them twice. -/
structure Numbered (convention : Convention) (n m : Nat) (lines : List Line) : Prop where
  generated : ∀ l ∈ lines, l.IsGenerated convention
  labels : (lines.filterMap Line.label?).Nodup
  bounds : ∀ name ∈ lines.filterMap Line.label?, ∃ e i, name = labelName e i ∧ n ≤ i ∧ i < m

namespace Numbered

variable {n m k : Nat} {xs ys : List Line}

theorem opcodes (os : List Opcode) : Numbered convention n m (os.map (Opcode.line convention)) := by
  have hnone : (os.map (Opcode.line convention)).filterMap Line.label? = [] := by
    rw [List.filterMap_map]
    exact List.filterMap_eq_nil_iff.2 fun _ _ => rfl
  refine ⟨isGenerated_opcodes os, ?_, ?_⟩
  · rw [hnone]
    exact List.nodup_nil
  · rw [hnone]
    simp

theorem append (hx : Numbered convention n m xs) (hy : Numbered convention m k ys) (hnm : n ≤ m)
    (hmk : m ≤ k) : Numbered convention n k (xs ++ ys) := by
  refine ⟨List.forall_mem_append.2 ⟨hx.generated, hy.generated⟩, ?_, ?_⟩
  · rw [List.filterMap_append, List.nodup_append]
    refine ⟨hx.labels, hy.labels, ?_⟩
    rintro name hname _ hname' rfl
    obtain ⟨e, i, rfl, -, hi⟩ := hx.bounds name hname
    obtain ⟨e', j, heq, hj, -⟩ := hy.bounds _ hname'
    obtain ⟨-, rfl⟩ := labelName_injective heq
    omega
  · rw [List.filterMap_append]
    refine List.forall_mem_append.2 ⟨fun name hname => ?_, fun name hname => ?_⟩
    · obtain ⟨e, i, hi, hni, him⟩ := hx.bounds name hname
      exact ⟨e, i, hi, hni, by omega⟩
    · obtain ⟨e, i, hi, hmi, hik⟩ := hy.bounds name hname
      exact ⟨e, i, hi, by omega, hik⟩

theorem loop (h : Numbered convention n m xs) (hnm : n ≤ m) :
    Numbered convention n (m + 1) (Rule.loopLines convention m xs) := by
  have hlabels : (Rule.loopLines convention m xs).filterMap Line.label? =
      labelName false m :: xs.filterMap Line.label? ++ [labelName true m] := by
    simp only [loopLines_eq, List.cons_append, List.filterMap_cons, List.filterMap_append]
    rfl
  have hne : ∀ e, labelName e m ∉ xs.filterMap Line.label? := by
    intro e hmem
    obtain ⟨e', i, heq, -, hi⟩ := h.bounds _ hmem
    obtain ⟨-, rfl⟩ := labelName_injective heq
    omega
  refine ⟨isGenerated_loopLines m h.generated, ?_, ?_⟩
  · rw [hlabels, List.cons_append, List.nodup_cons, List.nodup_append]
    refine ⟨?_, h.labels, by simp, ?_⟩
    · simp only [List.mem_append, List.mem_singleton, not_or]
      exact ⟨hne false, fun heq => by simpa using (labelName_injective heq).1⟩
    · rintro name hname _ hlast rfl
      rw [List.mem_singleton.1 hlast] at hname
      exact hne true hname
  · rw [hlabels]
    intro name hname
    simp only [List.cons_append, List.mem_cons, List.mem_append, List.not_mem_nil, or_false] at hname
    rcases hname with rfl | hname | rfl
    · exact ⟨false, m, rfl, hnm, by omega⟩
    · obtain ⟨e, i, hi, hni, him⟩ := h.bounds name hname
      exact ⟨e, i, hi, hni, by omega⟩
    · exact ⟨true, m, rfl, hnm, by omega⟩

end Numbered

/-! ## Drawing numbers -/

variable {α β : Type} {P : Nat → Nat → α → Prop}

/-- Code generation puts no number back, and where it succeeds the first number, the next free one and
the value are related. -/
def Draws (x : Gen α) (P : Nat → Nat → α → Prop) : Prop :=
  ∀ progress, progress.nextLabel ≤ (x.run.run progress).2.nextLabel ∧
    ∀ a, (x.run.run progress).1 = .ok a →
      P progress.nextLabel (x.run.run progress).2.nextLabel a

theorem Draws.pure {a : α} (h : ∀ n, P n n a) : Draws (pure a) P := by
  intro progress
  refine ⟨Nat.le_refl _, fun b hb => ?_⟩
  cases hb
  exact h _

theorem draws_throw (failure : Codegen.Failure) : Draws (throw failure : Gen α) P :=
  fun _ => ⟨Nat.le_refl _, fun _ h => by contradiction⟩

theorem draws_notePiece (piece : Codegen.Piece) : Draws (notePiece piece) fun n m _ => n = m :=
  fun _ => ⟨Nat.le_refl _, fun _ _ => rfl⟩

theorem draws_freshLabel : Draws freshLabel fun n m a => a = n ∧ m = n + 1 :=
  fun _ => ⟨Nat.le_succ _, fun _ h => by cases h; exact ⟨rfl, rfl⟩⟩

theorem Draws.bind {x : Gen α} {f : α → Gen β} {R : Nat → Nat → β → Prop} (hx : Draws x P)
    (hf : ∀ a, Draws (f a) fun m k b => ∀ n ≤ m, m ≤ k → P n m a → R n k b) :
    Draws (x >>= f) R := by
  intro progress
  have hfirst := hx progress
  rw [ExceptT.run_bind, StateT.run_bind]
  generalize x.run.run progress = outcome at hfirst ⊢
  obtain ⟨result, progress'⟩ := outcome
  cases result with
  | error failure => exact ⟨hfirst.1, fun _ h => by contradiction⟩
  | ok a =>
    obtain ⟨hle, hsecond⟩ := hf a progress'
    exact ⟨Nat.le_trans hfirst.1 hle, fun b hb =>
      hsecond b hb progress.nextLabel hfirst.1 hle (hfirst.2 a rfl)⟩

/-! ## Rules -/

/-- The translation by a rule gives numbered lines, if the generator for the fragments does. -/
def Codegen.Rule.Numbers (rule : Rule) : Prop :=
  ∀ {convention : Convention} {generate : List Char → Gen (List Line)} (piece : List Char),
    (∀ t, Draws (generate t) (Numbered convention)) →
      Draws (rule.translate convention generate piece) (Numbered convention)

theorem numbers_of_opcodes {rule : Rule}
    (h : ∀ convention generate piece, ∃ os : List Opcode,
      rule.translate convention generate piece = pure (os.map (Opcode.line convention))) :
    rule.Numbers := by
  intro convention generate piece _
  obtain ⟨os, hos⟩ := h convention generate piece
  rw [hos]
  exact .pure fun _ => .opcodes os

theorem numbers_arithmetic : Rule.arithmetic.Numbers :=
  numbers_of_opcodes fun convention generate piece => by
    refine ⟨adjustment .change (netCount ['+'] ['-'] piece)
      ((netCount ['+'] ['-'] piece).natAbs % 256), ?_⟩
    rw [map_line_adjustment fun _ _ => rfl]
    rfl

theorem numbers_shift : Rule.shift.Numbers :=
  numbers_of_opcodes fun convention generate piece => by
    refine ⟨adjustment .shift (netCount ['>'] ['<'] piece) (netCount ['>'] ['<'] piece).natAbs, ?_⟩
    rw [map_line_adjustment fun _ _ => rfl]
    rfl

theorem numbers_read : Rule.read.Numbers :=
  numbers_of_opcodes fun convention generate piece => by
    refine ⟨[.aimTape, .set .rdx (piece.count ','), .set .rdi 0, .set .rax 0, .call] ++
      if piece.count ',' > 1 then [.shift true (piece.count ',' - 1)] else [], ?_⟩
    rw [List.map_append, apply_ite (List.map _)]
    rfl

theorem draws_fillBuffer {generate : List Char → Gen (List Line)}
    (h : ∀ t, Draws (generate t) (Numbered convention)) (slot : Nat) (fragments : List (List Char)) :
    Draws (fillBuffer convention generate slot fragments) (Numbered convention) := by
  induction fragments generalizing slot with
  | nil => exact .pure fun _ => .opcodes []
  | cons fragment others ih =>
    rw [fillBuffer]
    split
    · refine (ih (slot + 1)).bind fun rest => .pure fun m n hnm _ hrest => ?_
      have hslot : Numbered convention n n (fillSlot convention slot) :=
        .opcodes [.load, .save slot]
      exact hslot.append hrest (Nat.le_refl n) hnm
    · refine (h fragment).bind fun lines => (ih slot).bind fun rest => .pure ?_
      intro k m hmk _ hrest n hnm _ hlines
      exact hlines.append hrest hnm hmk

theorem numbers_print : Rule.print.Numbers := by
  intro convention generate piece h
  refine (draws_fillBuffer h 0 (isolate ['.'] piece)).bind fun filled => .pure fun m n hnm _ hfilled => ?_
  have hfirst : Numbered convention n n
      [op "sub" ["rsp".toList, Text.hex (piece.count '.')]] :=
    .opcodes [.stack false (piece.count '.')]
  have hlast : Numbered convention m m _ :=
    .opcodes [.aimStack, .set .rdx (piece.count '.'), .set .rdi 1, .set .rax 1, .call,
      .stack true (piece.count '.')]
  exact (hfirst.append hfilled (Nat.le_refl n) hnm).append hlast hnm (Nat.le_refl m)

/-- The number of a loop is taken behind those of the loops inside it, and none is taken for a loop that
is dropped. -/
theorem numbers_loop : Rule.loop.Numbers := by
  intro convention generate piece h
  have hnone : Draws (pure [] : Gen (List Line)) (Numbered convention) := .pure fun _ => .opcodes []
  simp only [Rule.loop]
  split
  · exact hnone
  · refine (h _).bind fun lines => ?_
    split
    · exact .pure fun m n _ _ _ => .opcodes []
    · refine draws_freshLabel.bind fun number => .pure ?_
      rintro k m - - ⟨rfl, rfl⟩ n hnm _ hlines
      exact hlines.loop hnm

theorem numbers_standard : ∀ rule ∈ Rule.standard, rule.Numbers := by
  intro rule hrule
  simp only [Rule.standard, List.mem_cons, List.not_mem_nil, or_false] at hrule
  rcases hrule with rfl | rfl | rfl | rfl | rfl
  · exact numbers_print
  · exact numbers_read
  · exact numbers_arithmetic
  · exact numbers_shift
  · exact numbers_loop

/-! ## Generators -/

theorem draws_generatePieces {rules : List Rule} (hrules : ∀ rule ∈ rules, rule.Numbers)
    {generate : List Char → Gen (List Line)} (h : ∀ t, Draws (generate t) (Numbered convention))
    (fuel offset : Nat) (s : List Char) :
    Draws (generatePieces rules (fun rule piece => rule.translate convention generate piece) fuel
      offset s) (Numbered convention) := by
  induction fuel generalizing offset s with
  | zero =>
    cases s with
    | nil => exact .pure fun _ => .opcodes []
    | cons c s => exact draws_throw _
  | succ fuel ih =>
    cases s with
    | nil => exact .pure fun _ => .opcodes []
    | cons c s =>
      rw [generatePieces]
      cases hselect : select rules (c :: s) with
      | error failure => exact draws_throw _
      | ok choice =>
        cases choice with
        | none => exact draws_throw _
        | some selection =>
          obtain ⟨hmem, -⟩ := recognise_of_select hselect
          refine (draws_notePiece _).bind fun _ => (hrules _ hmem selection.text h).bind fun lines =>
            (ih _ _).bind fun others => .pure ?_
          rintro k l hlk - hothers m hml - hlines n hnm - rfl
          exact hlines.append hothers hml hlk

theorem draws_fragment {generator : Generator} (hrules : ∀ rule ∈ generator.rules, rule.Numbers)
    (depth : Nat) (s : List Char) :
    Draws (generator.fragment depth s) (Numbered generator.convention) := by
  induction depth generalizing s with
  | zero => exact draws_throw _
  | succ depth ih => exact draws_generatePieces hrules ih _ _ s

/-! ## Calls -/

/-- A call made with a supply of label numbers. -/
inductive Call where
  /-- Translate a text by a rule of the language, whether it recognises the text or not. -/
  | translate (rule : Rule) (h : rule ∈ Rule.standard) (text : List Char)
  | generate (text : List Char)

def Call.gen (convention : Convention) : Call → Gen (List Line)
  | translate rule _ text => ({ convention } : Generator).translate rule text
  | generate text => ({ convention } : Generator).fragment (text.length + 1) text

/-- The lines that calls return one after the other with one supply, where they succeed. -/
def linesOf (convention : Convention) : List Call → Progress → List Line
  | [], _ => []
  | call :: calls, progress =>
    match (call.gen convention).run.run progress with
    | (.ok lines, later) => lines ++ linesOf convention calls later
    | (.error _, later) => linesOf convention calls later

theorem draws_gen (call : Call) : Draws (call.gen convention) (Numbered convention) := by
  have hfragment : ∀ depth t,
      Draws (({ convention } : Generator).fragment depth t) (Numbered convention) :=
    draws_fragment numbers_standard
  cases call with
  | translate rule h text => exact numbers_standard rule h text (hfragment _)
  | generate text => exact hfragment _ text

/-- Calls with one supply give numbered lines all together. -/
theorem numbered_linesOf (calls : List Call) (progress : Progress) :
    ∃ m, progress.nextLabel ≤ m ∧
      Numbered convention progress.nextLabel m (linesOf convention calls progress) := by
  induction calls generalizing progress with
  | nil => exact ⟨_, Nat.le_refl _, .opcodes []⟩
  | cons call calls ih =>
    have hcall : Draws (call.gen convention) (Numbered convention) := draws_gen call
    specialize hcall progress
    rw [linesOf]
    generalize (call.gen convention).run.run progress = outcome at hcall ⊢
    obtain ⟨result, later⟩ := outcome
    obtain ⟨hle, hlines⟩ := hcall
    obtain ⟨m, hm, hrest⟩ := ih later
    refine ⟨m, Nat.le_trans hle hm, ?_⟩
    cases result with
    | ok lines => exact (hlines lines rfl).append hrest hle hm
    | error failure =>
      have hnothing : Numbered convention progress.nextLabel later.nextLabel [] := .opcodes []
      exact hnothing.append hrest hle hm

end Brainfuck
