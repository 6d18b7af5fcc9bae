import Brainfuck.Assembly
import Brainfuck.Text.Basic
import Mathlib.Data.List.TakeWhile

/-!
# Reading lines of assembly code

* `trim_of_ends`, `dropEndWhile_of_last`, `dropWhile_of_head` : trimming what has no margins;
* `mem_dropEndWhile`, `dropEndWhile_prefix_self` : what is left of a text that loses its end;
* `eraseFirst_of_not_mem` : nothing is erased where a character of the part is missing;
* `map_trim_splitAt` : operands with commas between them are found again;
* `Statement.ofLine_instruction`, `Statement.ofLine_label` : written lines are read back;
* `Line.isLineEnd_instruction`, `Line.isLineEnd_label` : they are lines indeed.
-/

namespace Brainfuck

namespace Text

theorem dropEndWhile_of_last {p : Char → Bool} {s : List Char} (h : ∀ c ∈ s.getLast?, p c = false) :
    dropEndWhile p s = s := by
  rw [dropEndWhile]
  rw [List.getLast?_eq_head?_reverse] at h
  cases hs : s.reverse with
  | nil => simpa using hs.symm
  | cons c rest =>
    rw [List.dropWhile_cons_of_neg (by simp [h c (by simp [hs])]), ← hs, List.reverse_reverse]

theorem mem_dropEndWhile {p : Char → Bool} {s : List Char} {c : Char} (h : c ∈ s) (hc : p c = false) :
    c ∈ dropEndWhile p s := by
  rw [dropEndWhile, List.mem_reverse]
  rw [← List.mem_reverse, ← List.takeWhile_append_dropWhile (p := p) (l := s.reverse)] at h
  rcases List.mem_append.1 h with h | h
  · have := List.mem_takeWhile_imp h
    rw [hc] at this
    contradiction
  · exact h

theorem dropEndWhile_prefix_self (p : Char → Bool) (s : List Char) : dropEndWhile p s <+: s := by
  have h := List.reverse_prefix.2 (List.dropWhile_suffix p (l := s.reverse))
  rwa [List.reverse_reverse] at h

theorem dropWhile_of_head {p : Char → Bool} {s : List Char} (h : ∀ c ∈ s.head?, p c = false) :
    s.dropWhile p = s := by
  cases s with
  | nil => rfl
  | cons c rest => rw [List.dropWhile_cons_of_neg (by simp [h c rfl])]

theorem trim_of_ends {s : List Char} (hhead : ∀ c ∈ s.head?, isBlank c = false)
    (hlast : ∀ c ∈ s.getLast?, isBlank c = false) : trim s = s := by
  rw [trim, dropWhile_of_head hhead, dropEndWhile_of_last hlast]

theorem trim_append_left {lead s : List Char} (h : ∀ c ∈ lead, isBlank c = true) :
    trim (lead ++ s) = trim s := by
  rw [trim, trim, List.dropWhile_append_of_pos h]

theorem forall_mem_of_all {P : Char → Prop} [DecidablePred P] {s : List Char}
    (h : s.all (fun c => decide (P c)) = true) : ∀ c ∈ s, P c := by
  simpa only [List.all_eq_true, decide_eq_true_eq] using h

theorem isLineEnd_eq_false {c : Char} (h : isBlank c = false) : isLineEnd c = false := by
  simp only [isBlank, Bool.or_eq_false_iff, Bool.and_eq_false_iff, decide_eq_false_iff_not,
    beq_eq_false_iff_ne] at h
  simp only [isLineEnd, Bool.or_eq_false_iff, Bool.and_eq_false_iff, decide_eq_false_iff_not,
    beq_eq_false_iff_ne]
  omega

theorem eraseFirst_of_not_mem {c : Char} {part s : List Char} (hpart : c ∈ part) (h : c ∉ s) :
    eraseFirst part s = s := by
  induction s with
  | nil => rfl
  | cons d s ih =>
    have hprefix : part.isPrefixOf (d :: s) = false := by
      rw [Bool.eq_false_iff, ne_eq, List.isPrefixOf_iff_prefix]
      exact fun hp => h (hp.subset hpart)
    rw [eraseFirst, hprefix, if_neg (by decide), ih (fun hc => h (List.mem_cons_of_mem _ hc))]

theorem splitAt_cons {separator c : Char} {s part : List Char} {others : List (List Char)}
    (hc : c ≠ separator) (h : splitAt separator s = part :: others) :
    splitAt separator (c :: s) = (c :: part) :: others := by
  rw [splitAt] at h ⊢
  rw [List.foldr_cons, if_neg hc, h]

theorem splitAt_of_not_mem {separator : Char} {s : List Char} (h : separator ∉ s) :
    splitAt separator s = [s] := by
  induction s with
  | nil => rfl
  | cons c s ih =>
    obtain ⟨hc, hs⟩ := not_or.1 (mt List.mem_cons.2 h)
    exact splitAt_cons (Ne.symm hc) (ih hs)

theorem splitAt_append {separator : Char} {s : List Char} (h : separator ∉ s) (rest : List Char) :
    splitAt separator (s ++ separator :: rest) = s :: splitAt separator rest := by
  induction s with
  | nil => exact if_pos rfl
  | cons c s ih =>
    obtain ⟨hc, hs⟩ := not_or.1 (mt List.mem_cons.2 h)
    exact splitAt_cons (Ne.symm hc) (ih hs)

end Text

open Text

/-- A text that can stand as an operand: no blanks at its ends, and nothing in it that has a meaning
for the line. -/
structure IsOperand (s : List Char) : Prop where
  plain : ∀ c ∈ s, c ≠ ',' ∧ c ≠ ';' ∧ c ≠ ':' ∧ isLineEnd c = false
  head : ∃ c, s.head? = some c ∧ isBlank c = false
  last : ∃ c, s.getLast? = some c ∧ isBlank c = false

structure IsMnemonic (s : List Char) : Prop where
  plain : ∀ c ∈ s, isBlank c = false ∧ c ≠ ';' ∧ c ≠ ':'
  nonempty : s ≠ []
  small : lower s = s
  instruction : directives.contains s = false

theorem IsOperand.trim_append {lead s : List Char} (h : IsOperand s)
    (hlead : ∀ c ∈ lead, isBlank c = true) : trim (lead ++ s) = s := by
  obtain ⟨c, hc, hcb⟩ := h.head
  obtain ⟨d, hd, hdb⟩ := h.last
  rw [trim_append_left hlead, trim_of_ends (by simpa [hc] using hcb) (by simpa [hd] using hdb)]

def operandText (operands : List (List Char)) : List Char :=
  [',', ' '].intercalate operands

theorem operandText_cons (s t : List Char) (operands : List (List Char)) :
    operandText (s :: t :: operands) = s ++ ',' :: ' ' :: operandText (t :: operands) := by
  simp [operandText, List.intercalate, List.intersperse]

theorem operandText_single (s : List Char) : operandText [s] = s := by
  simp [operandText, List.intercalate]

/-- Operands are found again between their commas, with blanks in front of the first. -/
theorem map_trim_splitAt {operands : List (List Char)} (h : ∀ s ∈ operands, IsOperand s)
    (hne : operands ≠ []) {lead : List Char} (hlead : ∀ c ∈ lead, isBlank c = true ∧ c ≠ ',') :
    (splitAt ',' (lead ++ operandText operands)).map trim = operands := by
  induction operands generalizing lead with
  | nil => contradiction
  | cons s operands ih =>
    have hs := h s List.mem_cons_self
    have hcomma : ',' ∉ lead ++ s := by
      intro hmem
      rcases List.mem_append.1 hmem with hmem | hmem
      · exact (hlead _ hmem).2 rfl
      · exact (hs.plain _ hmem).1 rfl
    have htrim := hs.trim_append (fun c hc => (hlead c hc).1)
    cases operands with
    | nil => rw [operandText_single, splitAt_of_not_mem hcomma, List.map_singleton, htrim]
    | cons t operands =>
      have hrest : (splitAt ',' ([' '] ++ operandText (t :: operands))).map trim = t :: operands :=
        ih (fun u hu => h u (List.mem_cons_of_mem _ hu)) (List.cons_ne_nil _ _)
          (forall_mem_of_all (by decide))
      rw [operandText_cons, ← List.append_assoc, splitAt_append hcomma, List.map_cons, htrim]
      exact congrArg (s :: ·) hrest

theorem mem_operandText {operands : List (List Char)} (h : ∀ s ∈ operands, IsOperand s) {c : Char}
    (hc : c ∈ operandText operands) : c ≠ ';' ∧ c ≠ ':' ∧ isLineEnd c = false := by
  induction operands with
  | nil => contradiction
  | cons s operands ih =>
    have hs := fun hc => (h s List.mem_cons_self).plain c hc
    cases operands with
    | nil =>
      rw [operandText_single] at hc
      exact (hs hc).2
    | cons t operands =>
      rw [operandText_cons, List.mem_append, List.mem_cons, List.mem_cons] at hc
      rcases hc with hc | rfl | rfl | hc
      · exact (hs hc).2
      · decide
      · decide
      · exact ih (fun u hu => h u (List.mem_cons_of_mem _ hu)) hc

theorem head?_operandText {s : List Char} (h : IsOperand s) (operands : List (List Char)) :
    (operandText (s :: operands)).head? = s.head? := by
  obtain ⟨c, hc, -⟩ := h.head
  cases operands with
  | nil => rw [operandText_single]
  | cons t operands => rw [operandText_cons, List.head?_append, hc, Option.some_or]

theorem getLast?_operandText {operands : List (List Char)} (h : ∀ s ∈ operands, IsOperand s)
    (hne : operands ≠ []) :
    ∃ c, (operandText operands).getLast? = some c ∧ isBlank c = false := by
  induction operands with
  | nil => contradiction
  | cons s operands ih =>
    cases operands with
    | nil =>
      rw [operandText_single]
      exact (h s List.mem_cons_self).last
    | cons t operands =>
      obtain ⟨c, hc, hb⟩ := ih (fun u hu => h u (List.mem_cons_of_mem _ hu)) (List.cons_ne_nil _ _)
      refine ⟨c, ?_, hb⟩
      rw [operandText_cons, List.getLast?_append, List.getLast?_cons, List.getLast?_cons]
      simp [hc]

theorem takeWhile_of_no_comment {s : List Char} (h : ∀ c ∈ s, c ≠ ';') :
    s.takeWhile (· ≠ ';') = s := by
  rw [List.takeWhile_eq_self_iff]
  simpa using h

theorem splitWord_append {word rest : List Char} (hword : ∀ c ∈ word, isBlank c = false)
    (hrest : ∃ c, rest.head? = some c ∧ isBlank c = false) :
    splitWord (word ++ '\t' :: rest) = (word, rest) := by
  have hpos : ∀ c ∈ word, (!isBlank c) = true := fun c hc => by simp [hword c hc]
  obtain ⟨c, hc, hb⟩ := hrest
  have hrest : rest.dropWhile isBlank = rest := dropWhile_of_head (by simpa [hc] using hb)
  have htab : isBlank '\t' = true := by decide
  rw [splitWord, List.takeWhile_append_of_pos hpos, List.dropWhile_append_of_pos hpos]
  simp [htab, hrest]

theorem splitWord_of_word {word : List Char} (hword : ∀ c ∈ word, isBlank c = false) :
    splitWord word = (word, []) := by
  have hpos : ∀ c ∈ word, (!isBlank c) = true := fun c hc => by simp [hword c hc]
  rw [splitWord, List.takeWhile_eq_self_iff.2 hpos, List.dropWhile_eq_nil_iff.2 hpos]
  rfl

/-- A line without a comment is an instruction if a mnemonic is its first word and it does not end
like a label. -/
theorem Statement.ofLine_of_words {line mnemonic rest : List Char} {operands : List (List Char)}
    (hcomment : ∀ c ∈ line, c ≠ ';') (hm : IsMnemonic mnemonic)
    (hwords : splitWord (trim line) = (mnemonic, rest)) (ho : operandsOf rest = operands)
    (hlast : (trim line).getLast? ≠ some ':') :
    Statement.ofLine line = .instruction mnemonic operands := by
  have hne : (trim line).isEmpty = false := by
    cases htrim : trim line with
    | nil =>
      rw [htrim] at hwords
      exact absurd (Prod.mk.inj hwords).1.symm hm.nonempty
    | cons c s => rfl
  rw [Statement.ofLine, takeWhile_of_no_comment hcomment]
  simp only [hne, Bool.false_eq_true, if_false, if_neg hlast, hwords, hm.small, hm.instruction,
    ho]

theorem Statement.ofLine_instruction {mnemonic : List Char} {operands : List (List Char)}
    (hm : IsMnemonic mnemonic) (ho : ∀ s ∈ operands, IsOperand s) :
    Statement.ofLine (Line.instruction mnemonic operands).text =
      .instruction mnemonic operands := by
  obtain ⟨m, word, hword⟩ := List.exists_cons_of_ne_nil hm.nonempty
  have hblank : isBlank m = false := (hm.plain m (by simp [hword])).1
  cases operands with
  | nil =>
    have htrim : trim ('\t' :: mnemonic) = mnemonic := by
      rw [← List.singleton_append, trim_append_left (forall_mem_of_all (by decide))]
      exact trim_of_ends (by simpa [hword] using hblank)
        (fun c hc => (hm.plain c (List.mem_of_getLast? hc)).1)
    refine Statement.ofLine_of_words (fun c hc => ?_) hm ?_ (show operandsOf [] = [] from rfl) ?_
    · rcases List.mem_cons.1 hc with rfl | hc
      · decide
      · exact (hm.plain c hc).2.1
    · rw [Line.text, htrim]
      exact splitWord_of_word (fun c hc => (hm.plain c hc).1)
    · rw [Line.text, htrim]
      exact fun hc => (hm.plain ':' (List.mem_of_getLast? hc)).2.2 rfl
  | cons s operands =>
    have hs := ho s List.mem_cons_self
    have hhead := hs.head
    rw [← head?_operandText hs operands] at hhead
    obtain ⟨d, hd, hdblank⟩ := getLast?_operandText ho (List.cons_ne_nil _ _)
    have hmem := fun c hc => mem_operandText ho (c := c) hc
    have hoperands : operandsOf (operandText (s :: operands)) = s :: operands := by
      have hne : (operandText (s :: operands)).isEmpty = false := by
        obtain ⟨c, hc, -⟩ := hhead
        rw [List.isEmpty_eq_false_iff]
        intro h
        rw [h] at hc
        contradiction
      rw [operandsOf, hne, if_neg (by decide)]
      exact map_trim_splitAt ho (List.cons_ne_nil _ _) (by simp : ∀ c ∈ [], _)
    have hlast : (mnemonic ++ '\t' :: operandText (s :: operands)).getLast? = some d := by
      rw [List.getLast?_append, List.getLast?_cons, hd]
      rfl
    have htext : (Line.instruction mnemonic (s :: operands)).text =
        '\t' :: (mnemonic ++ '\t' :: operandText (s :: operands)) := rfl
    have htrim : trim (Line.instruction mnemonic (s :: operands)).text =
        mnemonic ++ '\t' :: operandText (s :: operands) := by
      rw [htext, ← List.singleton_append, trim_append_left (forall_mem_of_all (by decide))]
      refine trim_of_ends (by simpa [hword] using hblank) (fun c hc => ?_)
      rw [hlast] at hc
      cases hc
      exact hdblank
    refine Statement.ofLine_of_words (fun c hc => ?_) hm ?_ hoperands ?_
    · rw [htext] at hc
      rcases List.mem_cons.1 hc with rfl | hc
      · decide
      rcases List.mem_append.1 hc with hc | hc
      · exact (hm.plain c hc).2.1
      rcases List.mem_cons.1 hc with rfl | hc
      · decide
      · exact (hmem c hc).1
    · rw [htrim]
      exact splitWord_append (fun c hc => (hm.plain c hc).1) hhead
    · rw [htrim, hlast]
      rintro ⟨⟩
      exact (hmem ':' (List.mem_of_getLast? hd)).2.1 rfl

theorem Statement.ofLine_label {name : List Char} (h : ∀ c ∈ name, isBlank c = false ∧ c ≠ ';') :
    Statement.ofLine (Line.label name).text = .label name := by
  have htake : (name ++ [':']).takeWhile (· ≠ ';') = name ++ [':'] := by
    refine takeWhile_of_no_comment (fun c hc => ?_)
    rcases List.mem_append.1 hc with hc | hc
    · exact (h c hc).2
    · obtain rfl := List.mem_singleton.1 hc
      decide
  have htrim : trim (name ++ [':']) = name ++ [':'] := by
    refine trim_of_ends (fun c hc => ?_) (fun c hc => ?_)
    · rcases List.mem_append.1 (List.mem_of_mem_head? hc) with hc | hc
      · exact (h c hc).1
      · obtain rfl := List.mem_singleton.1 hc
        decide
    · obtain rfl : ':' = c := by simpa using hc
      decide
  rw [Line.text, Statement.ofLine, htake, htrim, if_neg (by simp), if_pos (by simp),
    List.dropLast_concat]

theorem Line.isLineEnd_instruction {mnemonic : List Char} {operands : List (List Char)}
    (hm : IsMnemonic mnemonic) (ho : ∀ s ∈ operands, IsOperand s) :
    ∀ c ∈ (Line.instruction mnemonic operands).text, isLineEnd c = false := by
  have hmnemonic : ∀ c ∈ mnemonic, isLineEnd c = false := fun c hc =>
    isLineEnd_eq_false (hm.plain c hc).1
  intro c hc
  cases operands with
  | nil =>
    rcases List.mem_cons.1 hc with rfl | hc
    · decide
    · exact hmnemonic c hc
  | cons s operands =>
    rcases List.mem_cons.1 hc with rfl | hc
    · decide
    rcases List.mem_append.1 hc with hc | hc
    · exact hmnemonic c hc
    rcases List.mem_cons.1 hc with rfl | hc
    · decide
    · exact (mem_operandText ho hc).2.2

theorem Line.isLineEnd_label {name : List Char} (h : ∀ c ∈ name, isBlank c = false) :
    ∀ c ∈ (Line.label name).text, isLineEnd c = false := by
  intro c hc
  rcases List.mem_append.1 hc with hc | hc
  · exact isLineEnd_eq_false (h c hc)
  · obtain rfl := List.mem_singleton.1 hc
    decide

end Brainfuck
