import Brainfuck.Proofs.Acceptance

/-!
# Greedy choices

What any rules make of a text, as long as they answer with beginnings of it: which rule is chosen at a
place, where the choices lead, and what becomes of the pieces. In one text the place is known by what is
left of it, so the answers may depend on the place in any way.

* `Codegen.Rule.Anchored` : a rule answers on a text, with a beginning of it or with nothing;
* `Greedy rules t selection` : the longest answer, of the first rule that gives it (`Greedy.unique`);
* `Best` : the best choice among the rules that have been asked (`Best.better`, `best_of_selectFrom`,
  `select_eq_ok_iff`);
* `Reached rules s p chosen q` : choices lead from one place of a text to another (`Reached.flatten`,
  `exists_reached_end`);
* `InTurn translate p before chosen parts after` : choices are translated one after the other
  (`exists_inTurn`);
* `run_generatePieces`, `exists_of_generatePieces` : generation goes where the choices lead, and gives their
  translations;
* `greedy_partition` : the choices, the lines and the failures of generation.
-/

namespace Brainfuck

open Codegen

/-- A rule answers on a text: with a beginning of it, or that it does not handle it. -/
def Codegen.Rule.Anchored (rule : Rule) (t : List Char) : Prop :=
  ∃ answer, rule.recognise t = .ok answer ∧ ∀ piece, answer = some piece → piece <+: t

def Codegen.Rule.Passes (rule : Rule) (t : List Char) : Prop :=
  rule.recognise t = .ok none ∨ rule.recognise t = .ok (some [])

theorem Codegen.Rule.Passes.eq_nil {rule : Rule} {t piece : List Char} (h : rule.Passes t)
    (hpiece : rule.recognise t = .ok (some piece)) : piece = [] := by
  rcases h with h | h
  · cases h.symm.trans hpiece
  · cases h.symm.trans hpiece
    rfl

theorem Codegen.Rule.Honest.anchored {rule : Rule} (h : rule.Honest) (t : List Char) : rule.Anchored t := by
  obtain ⟨answer, hanswer⟩ := h.answers t
  refine ⟨answer, hanswer, ?_⟩
  rintro piece rfl
  exact h.takes hanswer

theorem anchored_fixed (name : String) (width : Nat) (t : List Char) :
    (Rule.fixed name width).Anchored t := by
  refine ⟨_, rfl, fun piece h => ?_⟩
  have hpiece : t.take width = piece := by
    split at h
    · contradiction
    · exact Option.some.inj h
  exact hpiece ▸ List.take_prefix width t

variable {rules : List Rule} {rule : Rule} {s t : List Char} {selection : Selection}

/-! ## Choices -/

/-- A choice is the longest answer of the rules, and its rule is the first that gives such a long one. -/
structure Greedy (rules : List Rule) (t : List Char) (selection : Selection) : Prop where
  recognised : selection.rule.recognise t = .ok (some selection.text)
  nonempty : selection.text ≠ []
  maximal : ∀ rule ∈ rules, ∀ piece, rule.recognise t = .ok (some piece) →
    piece.length ≤ selection.text.length
  earliest : ∃ before after, rules = before ++ selection.rule :: after ∧
    ∀ rule ∈ before, ∀ piece, rule.recognise t = .ok (some piece) →
      piece.length < selection.text.length

namespace Greedy

theorem mem (h : Greedy rules t selection) : selection.rule ∈ rules := by
  obtain ⟨before, after, rfl, -⟩ := h.earliest
  simp

theorem concat (h : Greedy rules t selection)
    (hrule : ∀ piece, rule.recognise t = .ok (some piece) → piece.length ≤ selection.text.length) :
    Greedy (rules ++ [rule]) t selection where
  recognised := h.recognised
  nonempty := h.nonempty
  maximal := List.forall_mem_append.2 ⟨h.maximal, List.forall_mem_singleton.2 hrule⟩
  earliest := by
    obtain ⟨before, after, rfl, hbefore⟩ := h.earliest
    exact ⟨before, after ++ [rule], by simp, hbefore⟩

theorem of_longer {piece : List Char} (hanswer : rule.recognise t = .ok (some piece)) (hne : piece ≠ [])
    (h : ∀ rule ∈ rules, ∀ other, rule.recognise t = .ok (some other) → other.length < piece.length) :
    Greedy (rules ++ [rule]) t ⟨piece, rule⟩ where
  recognised := hanswer
  nonempty := hne
  maximal := by
    refine List.forall_mem_append.2 ⟨fun r hr other hother => Nat.le_of_lt (h r hr other hother), ?_⟩
    refine List.forall_mem_singleton.2 fun other hother => ?_
    rw [hanswer] at hother
    cases hother
    exact Nat.le_refl _
  earliest := ⟨rules, [], rfl, h⟩

theorem unique {selection' : Selection} (h : Greedy rules t selection) (h' : Greedy rules t selection') :
    selection = selection' := by
  have hlength : selection.text.length = selection'.text.length :=
    Nat.le_antisymm (h'.maximal _ h.mem _ h.recognised) (h.maximal _ h'.mem _ h'.recognised)
  obtain ⟨before, after, hrules, hbefore⟩ := h.earliest
  obtain ⟨before', after', hrules', hbefore'⟩ := h'.earliest
  have hnot : selection.rule ∉ before' := fun hmem =>
    absurd (hbefore' _ hmem _ h.recognised) (Nat.not_lt_of_le (Nat.le_of_eq hlength.symm))
  have hnot' : selection'.rule ∉ before := fun hmem =>
    absurd (hbefore _ hmem _ h'.recognised) (Nat.not_lt_of_le (Nat.le_of_eq hlength))
  -- neither rule comes before the other
  have hrule : selection.rule = selection'.rule := by
    rw [hrules] at hrules'
    rcases List.append_eq_append_iff.1 hrules' with ⟨between, hwhole, hrest⟩ | ⟨between, hwhole, hrest⟩
    · cases between with
      | nil => exact (List.cons.inj hrest).1
      | cons r between =>
        rw [hwhole, (List.cons.inj hrest).1] at hnot
        simp at hnot
    · cases between with
      | nil => exact (List.cons.inj hrest).1.symm
      | cons r between =>
        rw [hwhole, (List.cons.inj hrest).1] at hnot'
        simp at hnot'
  have htext := h.recognised
  rw [hrule, h'.recognised] at htext
  obtain ⟨text, rule⟩ := selection
  obtain ⟨text', rule'⟩ := selection'
  cases htext
  cases hrule
  rfl

end Greedy

/-- The best choice among rules, if one of them takes anything. -/
def Best (t : List Char) (rules : List Rule) : Option Selection → Prop
  | none => ∀ rule ∈ rules, rule.Passes t
  | some selection => Greedy rules t selection

theorem Best.concat {best : Option Selection} (h : Best t rules best) (hrule : rule.Passes t) :
    Best t (rules ++ [rule]) best := by
  cases best with
  | none => exact List.forall_mem_append.2 ⟨h, List.forall_mem_singleton.2 hrule⟩
  | some selection =>
    refine Greedy.concat h fun piece hpiece => ?_
    rw [hrule.eq_nil hpiece]
    exact Nat.zero_le _

theorem Best.better {best : Option Selection} {answer : Option (List Char)} (h : Best t rules best)
    (hanswer : rule.recognise t = .ok answer) :
    Best t (rules ++ [rule]) (Selection.better best rule answer) := by
  unfold Selection.better
  split
  · exact h.concat (.inl hanswer)
  · exact h.concat (.inr hanswer)
  · rename_i piece hne
    cases best with
    | none =>
      refine Greedy.of_longer hanswer hne fun r hr other hother => ?_
      rw [(h r hr).eq_nil hother]
      exact List.length_pos_iff.2 hne
    | some chosen =>
      dsimp only
      split
      · rename_i hlt
        exact Greedy.of_longer hanswer hne fun r hr other hother =>
          Nat.lt_of_le_of_lt (Greedy.maximal h r hr other hother) hlt
      · rename_i hle
        refine Greedy.concat h fun other hother => ?_
        rw [hanswer] at hother
        cases hother
        exact Nat.le_of_not_lt hle

/-- Choosing among further rules keeps the best choice. -/
theorem best_of_selectFrom (asked : List Rule) {best choice : Option Selection}
    (h : selectFrom t best rules = .ok choice) (hbest : Best t asked best) :
    Best t (asked ++ rules) choice := by
  induction rules generalizing asked best with
  | nil =>
    cases h
    rwa [List.append_nil]
  | cons rule rules ih =>
    rw [selectFrom] at h
    cases hanswer : rule.recognise t with
    | error failure =>
      rw [hanswer] at h
      contradiction
    | ok answer =>
      rw [hanswer] at h
      have := ih _ h (hbest.better hanswer)
      rwa [List.append_assoc] at this

theorem Best.unique {best best' : Option Selection} (h : Best t rules best) (h' : Best t rules best') :
    best = best' := by
  cases best with
  | none =>
    cases best' with
    | none => rfl
    | some selection' =>
      have hchosen : Greedy rules t selection' := h'
      exact absurd ((h _ hchosen.mem).eq_nil hchosen.recognised) hchosen.nonempty
  | some selection =>
    have hchosen : Greedy rules t selection := h
    cases best' with
    | none => exact absurd ((h' _ hchosen.mem).eq_nil hchosen.recognised) hchosen.nonempty
    | some selection' => rw [hchosen.unique h']

theorem exists_select (h : ∀ rule ∈ rules, rule.Anchored t) : ∃ choice, select rules t = .ok choice :=
  exists_selectFrom (fun rule hrule => (h rule hrule).imp fun _ hanswer => hanswer.1) none

/-- Where all rules answer, the best choice is made. -/
theorem select_eq_ok_iff (h : ∀ rule ∈ rules, rule.Anchored t) {choice : Option Selection} :
    select rules t = .ok choice ↔ Best t rules choice := by
  have hbest : ∀ {choice}, select rules t = .ok choice → Best t rules choice := fun hchoice =>
    best_of_selectFrom [] hchoice (List.forall_mem_nil _)
  refine ⟨hbest, fun hchoice => ?_⟩
  obtain ⟨choice', hchoice'⟩ := exists_select h
  rw [hchoice.unique (hbest hchoice')]
  exact hchoice'

/-! ## Where choices lead -/

/-- Choices made one after the other lead from a place of a text to another. -/
inductive Reached (rules : List Rule) (s : List Char) : Nat → List Selection → Nat → Prop where
  | stay (p : Nat) : Reached rules s p [] p
  | next {p q : Nat} {selection : Selection} {chosen : List Selection} (inside : p < s.length)
    (choice : select rules (s.drop p) = .ok (some selection))
    (rest : Reached rules s (p + selection.text.length) chosen q) :
    Reached rules s p (selection :: chosen) q

variable {p q : Nat} {chosen : List Selection}

theorem Reached.nonempty (h : Reached rules s p chosen q) : ∀ selection ∈ chosen, selection.text ≠ [] := by
  induction h with
  | stay => simp
  | next _ choice _ ih => exact List.forall_mem_cons.2 ⟨(recognise_of_select choice).2.2, ih⟩

theorem Reached.rule_mem (h : Reached rules s p chosen q) : ∀ selection ∈ chosen, selection.rule ∈ rules := by
  induction h with
  | stay => simp
  | next _ choice _ ih => exact List.forall_mem_cons.2 ⟨(recognise_of_select choice).1, ih⟩

theorem Reached.length_le (h : Reached rules s p chosen q) : p + chosen.length ≤ q := by
  induction h with
  | stay => exact Nat.le_refl _
  | next _ choice _ ih =>
    have := List.length_pos_iff.2 (recognise_of_select choice).2.2
    rw [List.length_cons]
    omega

section Anchored

variable (hrules : ∀ rule ∈ rules, ∀ p, rule.Anchored (s.drop p))

include hrules

theorem prefix_of_select (h : select rules (s.drop p) = .ok (some selection)) :
    selection.text <+: s.drop p := by
  obtain ⟨hmem, hrecognise, -⟩ := recognise_of_select h
  obtain ⟨answer, hanswer, hprefix⟩ := hrules _ hmem p
  rw [hrecognise] at hanswer
  exact hprefix _ (Except.ok.inj hanswer).symm

theorem add_length_le_of_select (hp : p ≤ s.length) (h : select rules (s.drop p) = .ok (some selection)) :
    p + selection.text.length ≤ s.length := by
  have hle := (prefix_of_select hrules h).length_le
  rw [List.length_drop] at hle
  omega

theorem Reached.flatten (h : Reached rules s p chosen q) :
    s.drop p = (chosen.map Selection.text).flatten ++ s.drop q := by
  induction h with
  | stay => rfl
  | @next p q selection chosen _ choice _ ih =>
    obtain ⟨rest, hrest⟩ := prefix_of_select hrules choice
    have hdrop : s.drop (p + selection.text.length) = rest := by
      rw [← List.drop_drop, ← hrest, List.drop_left]
    rw [List.map_cons, List.flatten_cons, List.append_assoc, ← ih, hdrop, hrest]

/-- The choices lead to the end, or to a place where there is none. -/
theorem exists_reached_end (hp : p ≤ s.length) : ∃ chosen q, Reached rules s p chosen q ∧
    (q = s.length ∨ q < s.length ∧ select rules (s.drop q) = .ok none) := by
  induction hn : s.length - p using Nat.strongRecOn generalizing p with
  | ind n ih =>
    rcases Nat.lt_or_eq_of_le hp with hlt | rfl
    · obtain ⟨choice, hchoice⟩ := exists_select fun rule hrule => hrules rule hrule p
      cases choice with
      | none => exact ⟨[], p, .stay p, .inr ⟨hlt, hchoice⟩⟩
      | some selection =>
        have hpositive := List.length_pos_iff.2 (recognise_of_select hchoice).2.2
        have hle := add_length_le_of_select hrules hp hchoice
        obtain ⟨chosen, q, hreached, hend⟩ := ih (s.length - (p + selection.text.length)) (by omega) hle rfl
        exact ⟨selection :: chosen, q, .next hlt hchoice hreached, hend⟩
    · exact ⟨[], _, .stay _, .inl rfl⟩

end Anchored

/-! ## Translations -/

def Codegen.Progress.note (progress : Progress) (piece : Codegen.Piece) : Progress :=
  { progress with pieces := progress.pieces.push piece }

theorem run_notePiece (piece : Codegen.Piece) (progress : Progress) :
    (notePiece piece).run.run progress = (.ok (), progress.note piece) := rfl

variable {translate : Rule → List Char → Gen (List Line)} {parts : List (List Line)}
  {before after : Progress}

/-- Choices are translated one after the other, each with the progress that the one before it has left,
to which the choice is noted. -/
inductive InTurn (translate : Rule → List Char → Gen (List Line)) :
    (offset : Nat) → Progress → List Selection → List (List Line) → Progress → Prop where
  | done (offset : Nat) (progress : Progress) : InTurn translate offset progress [] [] progress
  | next {offset : Nat} {before between after : Progress} {selection : Selection} {lines : List Line}
    {chosen : List Selection} {parts : List (List Line)}
    (first : (translate selection.rule selection.text).run.run
      (before.note ⟨selection.rule.name, selection.text.length, offset⟩) = (.ok lines, between))
    (rest : InTurn translate (offset + selection.text.length) between chosen parts after) :
    InTurn translate offset before (selection :: chosen) (lines :: parts) after

theorem exists_inTurn (h : ∀ selection ∈ chosen, ∀ progress, ∃ lines later,
      (translate selection.rule selection.text).run.run progress = (.ok lines, later))
    (offset : Nat) (before : Progress) :
    ∃ parts after, InTurn translate offset before chosen parts after := by
  induction chosen generalizing offset before with
  | nil => exact ⟨[], before, .done offset before⟩
  | cons selection chosen ih =>
    obtain ⟨hfirst, hothers⟩ := List.forall_mem_cons.1 h
    obtain ⟨lines, between, hlines⟩ :=
      hfirst (before.note ⟨selection.rule.name, selection.text.length, offset⟩)
    obtain ⟨parts, after, hrest⟩ := ih hothers (offset + selection.text.length) between
    exact ⟨lines :: parts, after, .next hlines hrest⟩

theorem run_append {x : Gen (List Line)} {result : Except Codegen.Failure (List Line)}
    (h : x.run.run before = (result, after)) (lines : List Line) :
    (x >>= fun others => pure (lines ++ others)).run.run before = (result.map (lines ++ ·), after) := by
  rw [ExceptT.run_bind, StateT.run_bind, h]
  cases result <;> rfl

/-! ## Generation -/

theorem generatePieces_of_select (inside : p < s.length)
    (choice : select rules (s.drop p) = .ok (some selection)) (fuel : Nat) :
    generatePieces rules translate (fuel + 1) p (s.drop p) = (do
      notePiece ⟨selection.rule.name, selection.text.length, p⟩
      let lines ← translate selection.rule selection.text
      let others ← generatePieces rules translate fuel (p + selection.text.length)
        (s.drop (p + selection.text.length))
      pure (lines ++ others)) := by
  rw [← List.drop_drop]
  cases hs : s.drop p with
  | nil => exact absurd (List.drop_eq_nil_iff.1 hs) (Nat.not_le_of_lt inside)
  | cons c rest =>
    rw [hs] at choice
    rw [generatePieces, choice]

theorem generatePieces_of_stuck (inside : p < s.length) (choice : select rules (s.drop p) = .ok none)
    (fuel : Nat) :
    generatePieces rules translate (fuel + 1) p (s.drop p) = throw (.noMatch p ((s.drop p).take 16)) := by
  cases hs : s.drop p with
  | nil => exact absurd (List.drop_eq_nil_iff.1 hs) (Nat.not_le_of_lt inside)
  | cons c rest =>
    rw [hs] at choice
    rw [generatePieces, choice]

theorem generatePieces_end (fuel : Nat) :
    generatePieces rules translate fuel s.length (s.drop s.length) = pure [] := by
  rw [List.drop_length]
  cases fuel <;> rfl

/-- Generation goes where the choices lead, and puts their translations in front of what comes then. -/
theorem run_generatePieces (hreached : Reached rules s p chosen q)
    (hturn : InTurn translate p before chosen parts after) {fuel : Nat}
    {result : Except Codegen.Failure (List Line)} {later : Progress}
    (hrest : (generatePieces rules translate fuel q (s.drop q)).run.run after = (result, later)) :
    (generatePieces rules translate (fuel + chosen.length) p (s.drop p)).run.run before =
      (result.map (parts.flatten ++ ·), later) := by
  induction hreached generalizing before parts with
  | stay p =>
    cases hturn
    rw [List.length_nil, Nat.add_zero, hrest]
    cases result <;> rfl
  | next inside choice _ ih =>
    cases hturn with
    | next first rest =>
      have hothers := run_append (ih rest hrest)
      rw [List.length_cons, ← Nat.add_assoc, generatePieces_of_select inside choice,
        run_bind_of_ok (run_notePiece _ _), run_bind_of_ok first, hothers]
      cases result with
      | error failure => rfl
      | ok lines => simp [Except.map]

/-- Where generation succeeds, the choices lead to the end, and the lines are their translations. -/
theorem exists_of_generatePieces (hrules : ∀ rule ∈ rules, ∀ p, rule.Anchored (s.drop p))
    (hp : p ≤ s.length) {fuel : Nat} {lines : List Line}
    (h : (generatePieces rules translate fuel p (s.drop p)).run.run before = (.ok lines, after)) :
    ∃ chosen parts, Reached rules s p chosen s.length ∧ InTurn translate p before chosen parts after ∧
      lines = parts.flatten := by
  induction fuel generalizing p before lines with
  | zero =>
    cases hs : s.drop p with
    | nil =>
      obtain rfl : p = s.length := Nat.le_antisymm hp (List.drop_eq_nil_iff.1 hs)
      rw [hs] at h
      cases h
      exact ⟨[], [], .stay _, .done _ _, rfl⟩
    | cons c rest =>
      rw [hs] at h
      cases h
  | succ fuel ih =>
    rcases Nat.lt_or_eq_of_le hp with hlt | rfl
    · obtain ⟨choice, hchoice⟩ := exists_select fun rule hrule => hrules rule hrule p
      cases choice with
      | none =>
        rw [generatePieces_of_stuck hlt hchoice] at h
        cases h
      | some selection =>
        rw [generatePieces_of_select hlt hchoice, run_bind_of_ok (run_notePiece _ _)] at h
        obtain ⟨first, between, hfirst, hnext⟩ := exists_of_bind h
        obtain ⟨others, later, hothers, hlast⟩ := exists_of_bind hnext
        cases hlast
        obtain ⟨chosen, parts, hreached, hturn, rfl⟩ :=
          ih (add_length_le_of_select hrules hp hchoice) hothers
        exact ⟨selection :: chosen, first :: parts, .next hlt hchoice hreached, .next hfirst hturn, rfl⟩
    · rw [generatePieces_end] at h
      cases h
      exact ⟨[], [], .stay _, .done _ _, rfl⟩

theorem generatePieces_of_reached_end (hreached : Reached rules s 0 chosen s.length)
    (hturn : InTurn translate 0 before chosen parts after) :
    (generatePieces rules translate s.length 0 s).run.run before = (.ok parts.flatten, after) := by
  have hle := hreached.length_le
  rw [Nat.zero_add] at hle
  have hlast : (generatePieces rules translate (s.length - chosen.length) s.length
      (s.drop s.length)).run.run after = (.ok [], after) := by
    rw [generatePieces_end]
    rfl
  have hrun := run_generatePieces hreached hturn hlast
  rw [Nat.sub_add_cancel hle, List.drop_zero] at hrun
  rw [hrun, Except.map, List.append_nil]

theorem generatePieces_of_reached_stuck (hreached : Reached rules s 0 chosen p) (inside : p < s.length)
    (choice : select rules (s.drop p) = .ok none) (hturn : InTurn translate 0 before chosen parts after) :
    (generatePieces rules translate s.length 0 s).run.run before =
      (.error (.noMatch p ((s.drop p).take 16)), after) := by
  have hle := hreached.length_le
  obtain ⟨fuel, hfuel⟩ : ∃ fuel, s.length = fuel + 1 + chosen.length :=
    ⟨s.length - chosen.length - 1, by omega⟩
  have hlast : (generatePieces rules translate (fuel + 1) p (s.drop p)).run.run after =
      (.error (.noMatch p ((s.drop p).take 16)), after) := by
    rw [generatePieces_of_stuck inside choice]
    rfl
  have hrun := run_generatePieces hreached hturn hlast
  rw [← hfuel, List.drop_zero] at hrun
  exact hrun

/-- Any rules that answer with beginnings of a text are chosen greedily: a rule is chosen where one takes
anything, and it is the first of those that take the most. Generation succeeds exactly if such choices
cover the text from the beginning to the end; then its lines are the translations of the pieces, in their
order and each with the progress that the one before it has left. If no translation fails, generation fails
exactly where the choices lead to a place inside of the text at which there is none, and the failure tells
the place and the next sixteen characters. -/
theorem greedy_partition (rules : List Rule) (s : List Char)
    (hrules : ∀ rule ∈ rules, ∀ p, rule.Anchored (s.drop p)) :
    (∀ p, select rules (s.drop p) = .ok none ↔
      ∀ rule ∈ rules, rule.recognise (s.drop p) = .ok none ∨ rule.recognise (s.drop p) = .ok (some [])) ∧
    (∀ p selection, select rules (s.drop p) = .ok (some selection) ↔ Greedy rules (s.drop p) selection) ∧
    (∀ translate before lines after,
      (generatePieces rules translate s.length 0 s).run.run before = (.ok lines, after) ↔
        ∃ chosen parts, Reached rules s 0 chosen s.length ∧ s = (chosen.map Selection.text).flatten ∧
          (∀ selection ∈ chosen, selection.text ≠ []) ∧
          InTurn translate 0 before chosen parts after ∧ lines = parts.flatten) ∧
    (∀ translate before,
      (∀ chosen p, Reached rules s 0 chosen p → ∀ selection ∈ chosen, ∀ progress, ∃ lines later,
        (translate selection.rule selection.text).run.run progress = (.ok lines, later)) →
      ∀ failure, (∃ after,
          (generatePieces rules translate s.length 0 s).run.run before = (.error failure, after)) ↔
        ∃ chosen p, Reached rules s 0 chosen p ∧ p < s.length ∧ select rules (s.drop p) = .ok none ∧
          failure = .noMatch p ((s.drop p).take 16)) ∧
    (∀ convention, ({ rules, convention } : Generator).run s =
      (generatePieces rules
        (fun rule piece => rule.translate convention
          (({ rules, convention } : Generator).fragment s.length) piece) s.length 0 s).run.run {}) ∧
    ∀ p text, Codegen.Failure.message (.noMatch p text) =
      "No pattern matches the sequence at offset " ++ toString p ++ ": " ++ Text.quoted text := by
  refine ⟨fun p => select_eq_ok_iff fun rule hrule => hrules rule hrule p,
    fun p selection => select_eq_ok_iff fun rule hrule => hrules rule hrule p,
    fun translate before lines after => ⟨fun h => ?_, ?_⟩,
    fun translate before htranslate failure => ⟨?_, ?_⟩, fun convention => rfl, fun p text => rfl⟩
  · obtain ⟨chosen, parts, hreached, hturn, hlines⟩ :=
      exists_of_generatePieces (p := 0) hrules (Nat.zero_le _) h
    have hwhole := hreached.flatten hrules
    rw [List.drop_zero, List.drop_length, List.append_nil] at hwhole
    exact ⟨chosen, parts, hreached, hwhole, hreached.nonempty, hturn, hlines⟩
  · rintro ⟨chosen, parts, hreached, -, -, hturn, rfl⟩
    exact generatePieces_of_reached_end hreached hturn
  · rintro ⟨after, h⟩
    obtain ⟨chosen, p, hreached, hend⟩ := exists_reached_end hrules (Nat.zero_le _)
    obtain ⟨parts, later, hturn⟩ := exists_inTurn (htranslate chosen p hreached) 0 before
    rcases hend with rfl | ⟨inside, choice⟩
    · rw [generatePieces_of_reached_end hreached hturn] at h
      cases h
    · rw [generatePieces_of_reached_stuck hreached inside choice hturn] at h
      cases h
      exact ⟨chosen, p, hreached, inside, choice, rfl⟩
  · rintro ⟨chosen, p, hreached, inside, choice, rfl⟩
    obtain ⟨parts, later, hturn⟩ := exists_inTurn (htranslate chosen p hreached) 0 before
    exact ⟨later, generatePieces_of_reached_stuck hreached inside choice hturn⟩

/-- Two rules take two characters and one takes fewer: the first of the two is chosen, and at the last
character the first of all. With one rule only, generation fails at the character that it does not take. -/
theorem greedy_partition_tie :
    select [.fixed "one" 1, .arithmetic, .fixed "two" 2] "++>".toList =
      .ok (some ⟨"++".toList, .arithmetic⟩) ∧
    (({ rules := [.fixed "one" 1, .arithmetic, .fixed "two" 2] } : Generator).run "++>".toList).1 =
      .ok [op "add" ["byte [rbx]".toList, "0x2".toList], .verbatim "one >".toList] ∧
    (({ rules := [.arithmetic] } : Generator).run "++].".toList).1 = .error (.noMatch 2 "].".toList) := by
  have hthree : ∀ rule ∈ [.fixed "one" 1, .arithmetic, .fixed "two" 2],
      ∀ p, Rule.Anchored rule ("++>".toList.drop p) := by
    simp only [List.forall_mem_cons]
    exact ⟨fun _ => anchored_fixed _ _ _, fun _ => honest_arithmetic.anchored _,
      fun _ => anchored_fixed _ _ _, by simp⟩
  obtain ⟨-, hselect, hlines, -, hrun, -⟩ := greedy_partition _ "++>".toList hthree
  obtain ⟨-, -, -, hfailure, hrun', -⟩ := greedy_partition [.arithmetic] "++].".toList
    (List.forall_mem_singleton.2 fun _ => honest_arithmetic.anchored _)
  refine ⟨(hselect 0 _).2 ⟨rfl, by decide, ?_, [.fixed "one" 1], [.fixed "two" 2], rfl, ?_⟩, ?_, ?_⟩
  · simp only [List.forall_mem_cons]
    refine ⟨?_, ?_, ?_, by simp⟩ <;>
    · rintro piece h
      cases h
      decide
  · rw [List.forall_mem_singleton]
    rintro piece h
    cases h
    decide
  · rw [hrun, (hlines _ _ _ _).2 ⟨[⟨"++".toList, .arithmetic⟩, ⟨">".toList, .fixed "one" 1⟩], _,
      .next (by decide) rfl (.next (by decide) rfl (.stay _)), rfl, by decide,
      .next rfl (.next rfl (.done _ _)), rfl⟩]
    rfl
  · have hpieces : ∀ chosen p, Reached [.arithmetic] "++].".toList 0 chosen p → ∀ selection ∈ chosen,
        ∀ progress, ∃ lines later, (selection.rule.translate {}
          (({ rules := [.arithmetic] } : Generator).fragment 4) selection.text).run.run progress =
            (.ok lines, later) := by
      intro chosen p hreached selection hselection progress
      rw [List.mem_singleton.1 (hreached.rule_mem selection hselection)]
      exact ⟨_, _, rfl⟩
    obtain ⟨after, hafter⟩ := (hfailure (fun rule => rule.translate {} _) {} hpieces _).2
      ⟨[⟨"++".toList, .arithmetic⟩], 2, .next (by decide) rfl (.stay _), by decide, rfl, rfl⟩
    rw [hrun']
    exact congrArg Prod.fst hafter

end Brainfuck
