import Brainfuck.Proofs.Generation
import Brainfuck.Proofs.Grammar

/-!
# What the generator accepts

The generator keeps no account of open brackets, and yet it accepts the same texts as the check of a
text does. That it accepts programs is known from the lines it makes of them; here it is shown that it
accepts nothing else, and what it says instead.

* `Vouches x P` : where the code generation `x` succeeds, `P` holds, and it fails only for want of a rule
  (`Vouches.pure`, `Vouches.bind`);
* `Codegen.Rule.Honest` : a rule takes a beginning of the text and vouches for it, as the five rules of
  the language do (`honest_print`, `honest_read`, `honest_loop`, ...);
* `recognise_of_select`, `exists_selectFrom` : a choice is what one of the rules recognised, and there is an
  answer where all rules give one;
* `vouches_generatePieces`, `vouches_fragment` : a generator with such rules vouches for its text;
* `exists_fragment_of_sentence`, `exists_block_of_fragment` : what the rules of the language make of a text;
* `generate_iff_ensureProgram` : the texts that are generated, and the failures of all others.
-/

namespace Brainfuck

open Codegen

variable {α β : Type} {P Q : Prop}

/-! ## Success and failure -/

/-- Code generation, wherever it starts, succeeds only if `P` holds and fails only for want of a
rule. -/
def Vouches (x : Gen α) (P : Prop) : Prop :=
  ∀ progress, match (x.run.run progress).1 with
    | .ok _ => P
    | .error failure => ∃ offset text, failure = .noMatch offset text

theorem Vouches.pure (h : P) (a : α) : Vouches (pure a) P := fun _ => h

theorem Vouches.bind {x : Gen α} {f : α → Gen β} (hx : Vouches x P)
    (hf : ∀ a, P → Vouches (f a) Q) : Vouches (x >>= f) Q := by
  intro progress
  have hfirst := hx progress
  rw [ExceptT.run_bind, StateT.run_bind]
  generalize x.run.run progress = outcome at hfirst ⊢
  obtain ⟨result, progress'⟩ := outcome
  cases result with
  | ok a => exact hf a hfirst progress'
  | error failure => exact hfirst

theorem vouches_notePiece (piece : Codegen.Piece) : Vouches (notePiece piece) True :=
  fun _ => trivial

theorem vouches_freshLabel : Vouches freshLabel True := fun _ => trivial

theorem vouches_noMatch (offset : Nat) (text : List Char) :
    Vouches (throw (.noMatch offset text) : Gen α) P :=
  fun _ => ⟨offset, text, rfl⟩

/-- A rule answers on every text, with a beginning of it, and its translation vouches for what it took,
if the generator that it is given vouches for shorter texts. -/
structure Codegen.Rule.Honest (rule : Rule) : Prop where
  answers : ∀ s, ∃ answer, rule.recognise s = .ok answer
  takes : ∀ {s piece}, rule.recognise s = .ok (some piece) → piece <+: s
  vouches : ∀ {s piece convention generate}, rule.recognise s = .ok (some piece) →
    (∀ t, t.length < piece.length → Vouches (generate t) (Sentence t)) →
      Vouches (rule.translate convention generate piece) (Sentence piece)

/-! ## Rows and reads -/

theorem sentence_of_forall_mem {s : List Char} (h : ∀ c ∈ s, c ∈ "><+-.,".toList) : Sentence s := by
  induction s with
  | nil => exact .empty
  | cons c s ih =>
    rw [List.forall_mem_cons] at h
    exact .command h.1 (ih h.2)

theorem mem_of_isSilent {c : Char} (h : isSilent c = true) : c ∈ "><+-.,".toList := by
  simp only [isSilent, isShift, isChange, Bool.or_eq_true, beq_iff_eq] at h
  rcases h with (rfl | rfl) | rfl | rfl <;> decide

theorem classRun?_eq_some {q : Char → Bool} {s piece : List Char} (h : classRun? q s = some piece) :
    piece = s.takeWhile q := by
  unfold classRun? at h
  split at h
  · contradiction
  · cases h
    rfl

theorem honest_classRun {rule : Rule} {q : Char → Bool} (hq : ∀ c, q c = true → isSilent c = true)
    (hrule : ∀ s, rule.recognise s = .ok (classRun? q s))
    (htranslate : ∀ convention generate piece, ∃ lines,
      rule.translate convention generate piece = pure lines) : rule.Honest := by
  have hrow : ∀ s piece, rule.recognise s = .ok (some piece) → piece = s.takeWhile q := by
    intro s piece h
    rw [hrule, Except.ok.injEq] at h
    exact classRun?_eq_some h
  refine ⟨fun s => ⟨_, hrule s⟩, fun h => ?_, fun {s piece convention generate} h _ => ?_⟩
  · rw [hrow _ _ h]
    exact List.takeWhile_prefix q
  · obtain ⟨lines, hlines⟩ := htranslate convention generate piece
    rw [hlines]
    refine .pure (sentence_of_forall_mem fun c hc => ?_) _
    rw [hrow _ _ h] at hc
    exact mem_of_isSilent (hq c (List.mem_takeWhile_imp hc))

theorem honest_arithmetic : Rule.arithmetic.Honest :=
  honest_classRun (q := isChange) (fun c h => by simp [isSilent, h]) (fun _ => rfl)
    fun _ _ _ => ⟨_, rfl⟩

theorem honest_shift : Rule.shift.Honest :=
  honest_classRun (q := isShift) (fun c h => by simp [isSilent, h]) (fun _ => rfl)
    fun _ _ _ => ⟨_, rfl⟩

theorem furtherReads_spec (fuel s : List Char) :
    furtherReads fuel s <+: s ∧ ∀ c ∈ furtherReads fuel s, c = ',' ∨ isSilent c = true := by
  induction fuel generalizing s with
  | nil => exact ⟨List.nil_prefix, by simp [furtherReads]⟩
  | cons _ fuel ih =>
    rw [furtherReads]
    split
    · rename_i rest hrest
      split
      · obtain ⟨hstart, hall⟩ := ih rest
        constructor
        · have hs : s = s.takeWhile isSilent ++ ',' :: rest := by
            rw [← hrest, List.takeWhile_append_dropWhile]
          conv => rhs; rw [hs]
          exact (List.prefix_append_right_inj _).2 (List.cons_prefix_cons.2 ⟨rfl, hstart⟩)
        · intro c hc
          rcases List.mem_append.1 hc with hc | hc
          · exact .inr (List.mem_takeWhile_imp hc)
          · rcases List.mem_cons.1 hc with rfl | hc
            · exact .inl rfl
            · exact hall c hc
      · exact ⟨List.nil_prefix, by simp⟩
    · exact ⟨List.nil_prefix, by simp⟩

theorem readRun?_eq_some {s piece : List Char} (h : readRun? s = some piece) :
    piece <+: s ∧ Sentence piece := by
  unfold readRun? at h
  split at h
  · rename_i rest
    cases h
    obtain ⟨hstart, hall⟩ := furtherReads_spec rest rest
    refine ⟨List.cons_prefix_cons.2 ⟨rfl, hstart⟩, .command (by decide) (sentence_of_forall_mem ?_)⟩
    intro c hc
    rcases hall c hc with rfl | hsilent
    · decide
    · exact mem_of_isSilent hsilent
  · contradiction

theorem honest_read : Rule.read.Honest :=
  ⟨fun _ => ⟨_, rfl⟩, fun h => (readRun?_eq_some (Except.ok.inj h)).1,
    fun h _ => .pure (readRun?_eq_some (Except.ok.inj h)).2 _⟩

/-! ## Outputs -/

/-- What the rule for outputs takes begins with an output and has no other characters than outputs and
silent ones. -/
theorem printRun?_eq_some {s piece : List Char} (h : printRun? s = some piece) :
    piece <+: s ∧ '.' ∈ piece ∧ Sentence piece := by
  unfold printRun? at h
  split at h
  · rename_i rest
    cases h
    have htaken := Text.dropEndWhile_prefix_self (· != '.')
      (('.' :: rest).takeWhile fun c => c == '.' || isSilent c)
    refine ⟨htaken.trans (List.takeWhile_prefix _), Text.mem_dropEndWhile (by simp) rfl, ?_⟩
    refine sentence_of_forall_mem fun c hc => ?_
    have hclass := List.mem_takeWhile_imp (htaken.subset hc)
    rw [Bool.or_eq_true, beq_iff_eq] at hclass
    rcases hclass with rfl | hsilent
    · decide
    · exact mem_of_isSilent hsilent
  · contradiction

theorem flatten_isolate (operator s : List Char) : (isolate operator s).flatten = s := by
  induction s with
  | nil => rfl
  | cons c s ih =>
    rw [isolate]
    split
    · rename_i h
      rw [h] at ih
      rw [← ih]
      rfl
    · rename_i fragment others h
      rw [h] at ih
      rw [← ih]
      split <;> rfl

theorem mem_isolate {d : Char} {s fragment : List Char} (h : fragment ∈ isolate [d] s) :
    fragment = [d] ∨ d ∉ fragment := by
  induction s generalizing fragment with
  | nil => contradiction
  | cons c s ih =>
    have halone : [c] = [d] ∨ d ∉ [c] := by
      by_cases hc : c = d
      · exact .inl (by rw [hc])
      · exact .inr (by simpa using Ne.symm hc)
    rw [isolate] at h
    split at h
    · rw [List.mem_singleton] at h
      rwa [h]
    · rename_i first others hs
      rw [hs] at ih
      split at h
      · rcases List.mem_cons.1 h with rfl | h
        · exact halone
        · exact ih h
      · rename_i hjoin
        rcases List.mem_cons.1 h with rfl | h
        · simp only [isAlone, Bool.or_eq_true, beq_iff_eq, List.cons.injEq, and_true, not_or] at hjoin
          right
          rcases ih List.mem_cons_self with rfl | hnot
          · exact absurd (by simp [isAlone]) hjoin.2
          · simpa [Ne.symm hjoin.1] using hnot
        · exact ih (List.mem_cons_of_mem _ h)

theorem sublist_of_mem_isolate {operator s fragment : List Char} (h : fragment ∈ isolate operator s) :
    fragment.Sublist s := by
  have := List.sublist_flatten_of_mem h
  rwa [flatten_isolate] at this

theorem length_lt_of_mem_isolate {d : Char} {s fragment : List Char} (hd : d ∈ s)
    (h : fragment ∈ isolate [d] s) (hne : fragment ≠ [d]) : fragment.length < s.length := by
  have hsub := sublist_of_mem_isolate h
  apply Nat.lt_of_le_of_ne hsub.length_le
  intro hlength
  obtain rfl := hsub.eq_of_length hlength
  exact ((mem_isolate h).resolve_left hne) hd

theorem vouches_fillBuffer {convention : Convention} {generate : List Char → Gen (List Line)}
    {fragments : List (List Char)}
    (h : ∀ t ∈ fragments, t ≠ ['.'] → Vouches (generate t) (Sentence t)) (slot : Nat) :
    Vouches (fillBuffer convention generate slot fragments) True := by
  induction fragments generalizing slot with
  | nil => exact .pure trivial _
  | cons t fragments ih =>
    rw [List.forall_mem_cons] at h
    unfold fillBuffer
    split
    · exact (ih h.2 (slot + 1)).bind fun _ _ => .pure trivial _
    · rename_i hne
      exact (h.1 hne).bind fun _ _ => (ih h.2 slot).bind fun _ _ => .pure trivial _

theorem honest_print : Rule.print.Honest := by
  refine ⟨fun _ => ⟨_, rfl⟩, fun h => (printRun?_eq_some (Except.ok.inj h)).1, ?_⟩
  intro s piece convention generate h hgenerate
  obtain ⟨-, hmem, hsentence⟩ := printRun?_eq_some (Except.ok.inj h)
  refine (vouches_fillBuffer (fun t ht hne => ?_) 0).bind fun _ _ => .pure hsentence _
  exact hgenerate t (length_lt_of_mem_isolate hmem ht hne)

/-! ## Loops -/

theorem throughClosing?_eq_some {depth : Nat} {s t : List Char} (h : throughClosing? depth s = some t) :
    t <+: s ∧ ∃ inner, t = inner ++ [']'] := by
  induction s generalizing depth t with
  | nil => cases depth <;> contradiction
  | cons c s ih =>
    have hmore : ∀ depth', (throughClosing? depth' s).map (c :: ·) = some t →
        t <+: c :: s ∧ ∃ inner, t = inner ++ [']'] := by
      intro depth' h'
      obtain ⟨u, hu, rfl⟩ := Option.map_eq_some_iff.1 h'
      obtain ⟨hstart, inner, rfl⟩ := ih hu
      exact ⟨List.cons_prefix_cons.2 ⟨rfl, hstart⟩, c :: inner, rfl⟩
    unfold throughClosing? at h
    split at h
    · contradiction
    · rename_i heq
      cases heq
      exact hmore _ h
    · rename_i heq
      cases heq
      cases h
      exact ⟨List.cons_prefix_cons.2 ⟨rfl, List.nil_prefix⟩, [], rfl⟩
    · rename_i heq
      cases heq
      exact hmore _ h
    · rename_i heq
      cases heq
      exact hmore _ h

theorem loop?_eq_some {s piece : List Char} (h : loop? s = some piece) :
    piece <+: s ∧ ∃ inner, piece = '[' :: inner ++ [']'] := by
  unfold loop? at h
  split at h
  · obtain ⟨t, ht, rfl⟩ := Option.map_eq_some_iff.1 h
    obtain ⟨hstart, inner, rfl⟩ := throughClosing?_eq_some ht
    exact ⟨List.cons_prefix_cons.2 ⟨rfl, hstart⟩, inner, rfl⟩
  · contradiction

theorem honest_loop : Rule.loop.Honest := by
  refine ⟨fun _ => ⟨_, rfl⟩, fun h => (loop?_eq_some (Except.ok.inj h)).1, ?_⟩
  intro s piece convention generate h hgenerate
  obtain ⟨-, inner, rfl⟩ := loop?_eq_some (Except.ok.inj h)
  have hinside : (('[' :: inner ++ [']']).drop 1).dropLast = inner := by simp
  have hloop : Sentence inner → Sentence ('[' :: inner ++ [']']) := fun hinner => .loop hinner .empty
  simp only [Rule.loop, hinside]
  split
  · rename_i hempty
    rw [List.isEmpty_iff.1 hempty] at hloop ⊢
    exact .pure (hloop .empty) _
  · have hshorter : inner.length < ('[' :: inner ++ [']']).length := by
      rw [List.length_append, List.length_cons]
      omega
    refine (hgenerate inner hshorter).bind fun lines hinner => ?_
    split
    · exact .pure (hloop hinner) _
    · exact vouches_freshLabel.bind fun _ _ => .pure (hloop hinner) _

theorem honest_standard : ∀ rule ∈ Rule.standard, rule.Honest := by
  intro rule h
  simp only [Rule.standard, List.mem_cons, List.not_mem_nil, or_false] at h
  rcases h with rfl | rfl | rfl | rfl | rfl
  · exact honest_print
  · exact honest_read
  · exact honest_arithmetic
  · exact honest_shift
  · exact honest_loop

/-! ## The choice of a rule -/

theorem of_better_eq_some {best : Option Selection} {rule : Rule} {answer : Option (List Char)}
    {selection : Selection} (h : Selection.better best rule answer = some selection) :
    best = some selection ∨
      selection.rule = rule ∧ answer = some selection.text ∧ selection.text ≠ [] := by
  unfold Selection.better at h
  split at h
  · exact .inl h
  · exact .inl h
  · rename_i text hne
    split at h
    · cases h
      exact .inr ⟨rfl, rfl, hne⟩
    · split at h
      · cases h
        exact .inr ⟨rfl, rfl, hne⟩
      · exact .inl h

theorem recognise_of_selectFrom {s : List Char} {rules : List Rule} {best : Option Selection}
    {selection : Selection} (h : selectFrom s best rules = .ok (some selection)) :
    best = some selection ∨ selection.rule ∈ rules ∧
      selection.rule.recognise s = .ok (some selection.text) ∧ selection.text ≠ [] := by
  induction rules generalizing best with
  | nil => exact .inl (Except.ok.inj h)
  | cons rule rules ih =>
    rw [selectFrom] at h
    cases hanswer : rule.recognise s with
    | error failure =>
      rw [hanswer] at h
      contradiction
    | ok answer =>
      rw [hanswer] at h
      rcases ih h with hbest | ⟨hmem, hrest⟩
      · rcases of_better_eq_some hbest with hbest | ⟨rfl, rfl, hne⟩
        · exact .inl hbest
        · exact .inr ⟨List.mem_cons_self, hanswer, hne⟩
      · exact .inr ⟨List.mem_cons_of_mem _ hmem, hrest⟩

theorem recognise_of_select {rules : List Rule} {s : List Char} {selection : Selection}
    (h : select rules s = .ok (some selection)) :
    selection.rule ∈ rules ∧ selection.rule.recognise s = .ok (some selection.text) ∧
      selection.text ≠ [] :=
  (recognise_of_selectFrom h).resolve_left nofun

/-- Where all rules answer, a choice is made or there is none. -/
theorem exists_selectFrom {s : List Char} {rules : List Rule}
    (h : ∀ rule ∈ rules, ∃ answer, rule.recognise s = .ok answer) (best : Option Selection) :
    ∃ choice, selectFrom s best rules = .ok choice := by
  induction rules generalizing best with
  | nil => exact ⟨best, rfl⟩
  | cons rule rules ih =>
    rw [List.forall_mem_cons] at h
    obtain ⟨⟨answer, hanswer⟩, hrest⟩ := h
    rw [selectFrom, hanswer]
    exact ih hrest _

/-! ## Generators -/

/-- A generator with honest rules, which vouches for texts of fewer than `bound` characters inside of
its pieces, vouches for one of up to `bound` characters. -/
theorem vouches_generatePieces {rules : List Rule} (hrules : ∀ rule ∈ rules, rule.Honest)
    {convention : Convention} {generate : List Char → Gen (List Line)} {bound : Nat}
    (hgenerate : ∀ t, t.length < bound → Vouches (generate t) (Sentence t)) (fuel offset : Nat)
    {s : List Char} (hfuel : s.length ≤ fuel) (hbound : s.length ≤ bound) :
    Vouches (generatePieces rules (fun rule piece => rule.translate convention generate piece) fuel
      offset s) (Sentence s) := by
  induction fuel generalizing offset s with
  | zero =>
    obtain rfl := List.length_eq_zero_iff.1 (Nat.le_zero.1 hfuel)
    exact .pure .empty _
  | succ fuel ih =>
    cases s with
    | nil => exact .pure .empty _
    | cons c s =>
      obtain ⟨choice, hchoice⟩ : ∃ choice, select rules (c :: s) = .ok choice :=
        exists_selectFrom (fun rule hrule => (hrules rule hrule).answers _) none
      rw [generatePieces, hchoice]
      cases choice with
      | none => exact vouches_noMatch _ _
      | some selection =>
        obtain ⟨hmem, hrecognise, hne⟩ := recognise_of_select hchoice
        have honest := hrules _ hmem
        obtain ⟨rest, hsplit⟩ := honest.takes hrecognise
        -- a piece takes at least one character, which leaves less fuel to need for the others
        have hpositive := List.length_pos_iff.2 hne
        have hlength := congrArg List.length hsplit
        rw [List.length_append] at hlength
        have hpiece : Vouches (selection.rule.translate convention generate selection.text)
            (Sentence selection.text) :=
          honest.vouches hrecognise fun t ht => hgenerate t (by omega)
        refine (vouches_notePiece _).bind fun _ _ => hpiece.bind fun lines hsentence => ?_
        have hdrop : (c :: s).drop selection.text.length = rest := by rw [← hsplit, List.drop_left]
        rw [hdrop]
        refine (ih (offset + selection.text.length) (by omega) (by omega)).bind fun others hrest => ?_
        rw [← hsplit]
        exact .pure (hsentence.append hrest) _

theorem vouches_fragment {generator : Generator} (hrules : ∀ rule ∈ generator.rules, rule.Honest)
    {depth : Nat} {s : List Char} (hdepth : s.length < depth) :
    Vouches (generator.fragment depth s) (Sentence s) := by
  induction depth generalizing s with
  | zero => contradiction
  | succ depth ih =>
    -- what a rule hands back to the generator is shorter than the text, so one level less will do
    exact vouches_generatePieces hrules (fun t ht => ih ht) s.length 0 (Nat.le_refl _)
      (Nat.le_of_lt_succ hdepth)

theorem exists_fragment_of_sentence {generator : Generator} (hrules : generator.rules = Rule.standard)
    {depth : Nat} {s : List Char} (hdepth : s.length < depth) (h : Sentence s) (before : Progress) :
    ∃ lines after, (generator.fragment depth s).run.run before = (.ok lines, after) := by
  -- the tree of the sentence has a block, and the generator makes the block's lines
  obtain ⟨p, rfl⟩ := sentence_iff_exists_text.1 h
  obtain ⟨b, rfl, hgenerates, -⟩ := exists_block hrules p
  obtain ⟨pieces, hrun⟩ := hgenerates.fragment hdepth before.nextLabel before.pieces
  exact ⟨_, _, hrun⟩

theorem exists_block_of_fragment {generator : Generator} (hrules : generator.rules = Rule.standard)
    {depth : Nat} {s : List Char} (hdepth : s.length < depth) {before after : Progress}
    {lines : List Line} (h : (generator.fragment depth s).run.run before = (.ok lines, after)) :
    ∃ b : Block, b.program.text = s ∧ lines = b.lines generator.convention before.nextLabel := by
  have honest : ∀ rule ∈ generator.rules, rule.Honest := hrules ▸ honest_standard
  have hsentence := vouches_fragment honest hdepth before
  rw [h] at hsentence
  obtain ⟨p, rfl⟩ := sentence_iff_exists_text.1 hsentence
  obtain ⟨b, rfl, hgenerates, -⟩ := exists_block hrules p
  obtain ⟨pieces, hrun⟩ := hgenerates.fragment hdepth before.nextLabel before.pieces
  exact ⟨b, rfl, Except.ok.inj (congrArg Prod.fst (h.symm.trans hrun))⟩

theorem generate_of_sentence {generator : Generator} (hrules : generator.rules = Rule.standard)
    {s : List Char} (h : Sentence s) : ∃ lines, generator.generate s = .ok lines := by
  obtain ⟨lines, after, hrun⟩ := exists_fragment_of_sentence hrules (Nat.lt_succ_self _) h {}
  exact ⟨lines, congrArg Prod.fst hrun⟩

/-- A text that is generated is a sentence, and for any other a rule is wanting. -/
theorem generate_cases {generator : Generator} (hrules : generator.rules = Rule.standard)
    (s : List Char) :
    (∃ lines, generator.generate s = .ok lines) ∧ Sentence s ∨
      (∃ offset text, generator.generate s = .error (.noMatch offset text)) ∧ ¬ Sentence s := by
  have honest : ∀ rule ∈ generator.rules, rule.Honest := hrules ▸ honest_standard
  have hvouches := vouches_fragment honest (Nat.lt_succ_self s.length) {}
  rw [show ((generator.fragment _ s).run.run {}).1 = generator.generate s from rfl] at hvouches
  cases hresult : generator.generate s with
  | ok lines =>
    rw [hresult] at hvouches
    exact .inl ⟨⟨lines, rfl⟩, hvouches⟩
  | error failure =>
    rw [hresult] at hvouches
    obtain ⟨offset, text, rfl⟩ := hvouches
    refine .inr ⟨⟨offset, text, rfl⟩, fun h => ?_⟩
    obtain ⟨lines, hlines⟩ := generate_of_sentence hrules h
    rw [hresult] at hlines
    contradiction

/-! ## Compilers -/

theorem lineTexts_of_error {compiler : Compiler} {source : List Char} {flaw : Flaw}
    (h : ensureProgram (joinSource source) = .error flaw) :
    compiler.lineTexts source = .error (.flaw flaw) := by
  have hne : ¬ (joinSource source).isEmpty = true := by
    intro hempty
    rw [List.isEmpty_iff.1 hempty] at h
    contradiction
  simp only [Compiler.lineTexts, Compiler.lines, Compiler.linesWithRemarks, if_neg hne, h]
  rfl

/-- The generator gives lines for a text exactly if the check accepts it, and wants a rule exactly if
the check finds a flaw. So compiling a source fails exactly with the flaw that its text has. -/
theorem generate_iff_ensureProgram (convention : Convention) (s : List Char) :
    ((∃ lines, ({ convention } : Generator).generate s = .ok lines) ↔ ensureProgram s = .ok ()) ∧
      ((∃ offset text, ({ convention } : Generator).generate s = .error (.noMatch offset text)) ↔
        ∃ flaw, ensureProgram s = .error flaw) ∧
      ∀ failure, ({ convention } : Compiler).lineTexts s = .error failure ↔
        ∃ flaw, failure = .flaw flaw ∧ ensureProgram (joinSource s) = .error flaw := by
  have hcases := generate_cases (show ({ convention } : Generator).rules = _ from rfl) s
  have hchecks : ∀ text, (∃ flaw, ensureProgram text = .error flaw) ↔ ¬ Sentence text := by
    intro text
    rw [← ensureProgram_eq_ok_iff]
    cases ensureProgram text <;> simp
  rw [ensureProgram_eq_ok_iff, hchecks]
  refine ⟨?_, ?_, fun failure => ⟨fun h => ?_, ?_⟩⟩
  · rcases hcases with ⟨hok, hs⟩ | ⟨⟨offset, text, herror⟩, hs⟩
    · exact iff_of_true hok hs
    · rw [herror]
      exact iff_of_false nofun hs
  · rcases hcases with ⟨⟨lines, hok⟩, hs⟩ | ⟨herror, hs⟩
    · rw [hok]
      exact iff_of_false nofun (not_not_intro hs)
    · exact iff_of_true herror hs
  · by_cases hs : Sentence (joinSource s)
    · rw [sentence_iff_exists_text, ← flaw?_eq_none_iff] at hs
      obtain ⟨b, -, -, hlines⟩ := exists_lines convention hs
      rw [← lineTexts_joinSource, hlines] at h
      contradiction
    · obtain ⟨flaw, hflaw⟩ := (hchecks _).2 hs
      rw [lineTexts_of_error hflaw] at h
      exact ⟨flaw, (Except.error.inj h).symm, hflaw⟩
  · rintro ⟨flaw, rfl, h⟩
    exact lineTexts_of_error h

end Brainfuck
