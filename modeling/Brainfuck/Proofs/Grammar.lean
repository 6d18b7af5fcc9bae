import Brainfuck.Proofs.Program
import Brainfuck.Proofs.Text
import Mathlib.Order.Bounds.Basic

/-!
# The language of programs

The check of a text is compared with a grammar and with conditions on positions, none of which
speaks of the brackets that are open during a scan.

* `Sentence` : the texts that the grammar derives, which are the texts of trees
  (`sentence_iff_exists_text`);
* `Breaks`, `Closes`, `Unclosed` : positions that no program can have, brackets that belong together,
  and opening brackets without a partner;
* `Pending` : what has been read at a point of the scan (`Pending.append`, `Pending.close`);
* `Verdict` : what is to be said of a text, which is one thing only (`Verdict.unique`) and what the
  scan says (`verdict_flaw?`);
* `ensureProgram_iff` : the texts that are accepted, and the flaw that is reported of any other.
-/

namespace Brainfuck

/-- The texts of the grammar `P ::= empty | o P | [ P ] P`. -/
inductive Sentence : List Char → Prop where
  | empty : Sentence []
  | command {o : Char} {rest : List Char} (ho : o ∈ "><+-.,".toList) (hrest : Sentence rest) :
      Sentence (o :: rest)
  | loop {body rest : List Char} (hbody : Sentence body) (hrest : Sentence rest) :
      Sentence ('[' :: body ++ ']' :: rest)

/-- A character cannot stand behind a beginning of a program: it is no operator, or it closes a
bracket where none is open. -/
def Offends (before : List Char) (c : Char) : Prop :=
  c ∉ "><+-.,[]".toList ∨ c = ']' ∧ before.count '[' = before.count ']'

/-- The character at a position cannot stand behind those before it. -/
def Breaks (s : List Char) (i : Nat) : Prop :=
  ∃ c, s[i]? = some c ∧ Offends (s.take i) c

/-- Two positions hold brackets that belong together. -/
def Closes (s : List Char) (j k : Nat) : Prop :=
  j < k ∧ s[j]? = some '[' ∧ s[k]? = some ']' ∧ Sentence ((s.take k).drop (j + 1))

/-- A position holds an opening bracket to which no closing one belongs. -/
def Unclosed (s : List Char) (j : Nat) : Prop :=
  s[j]? = some '[' ∧ ∀ k, ¬ Closes s j k

/-! ## Sentences -/

theorem Command.char_mem (c : Command) : c.char ∈ "><+-.,".toList := by
  cases c <;> decide

theorem exists_command_of_mem {o : Char} (h : o ∈ "><+-.,".toList) : ∃ c : Command, c.char = o := by
  rcases char_cases o with ⟨c, rfl⟩ | rfl | rfl | hnone
  · exact ⟨c, rfl⟩
  · exact absurd h (by decide)
  · exact absurd h (by decide)
  · have hsome : ∀ c ∈ "><+-.,".toList, Operator.ofChar? c ≠ none := Text.forall_mem_of_all (by decide)
    exact absurd hnone (hsome o h)

/-- The grammar derives the texts of trees. -/
theorem sentence_iff_exists_text {s : List Char} : Sentence s ↔ ∃ p : Program, p.text = s := by
  constructor
  · intro h
    induction h with
    | empty => exact ⟨.done, rfl⟩
    | command ho _ ih =>
      obtain ⟨c, rfl⟩ := exists_command_of_mem ho
      obtain ⟨p, rfl⟩ := ih
      exact ⟨.command c p, rfl⟩
    | loop _ _ ihb ih =>
      obtain ⟨body, rfl⟩ := ihb
      obtain ⟨rest, rfl⟩ := ih
      exact ⟨.loop body rest, rfl⟩
  · rintro ⟨p, rfl⟩
    induction p with
    | done => exact .empty
    | command c p ih => exact .command c.char_mem ih
    | loop body p ihb ih => exact .loop ihb ih

theorem Sentence.append {s t : List Char} (hs : Sentence s) (ht : Sentence t) :
    Sentence (s ++ t) := by
  induction hs with
  | empty => exact ht
  | command ho _ ih => exact .command ho ih
  | loop hbody _ _ ih =>
    rw [List.append_assoc, List.cons_append]
    exact .loop hbody ih

theorem Sentence.count_eq {s : List Char} (h : Sentence s) : s.count '[' = s.count ']' := by
  induction h with
  | empty => rfl
  | command ho _ ih =>
    have hne : ∀ c ∈ "><+-.,".toList, c ≠ '[' ∧ c ≠ ']' := Text.forall_mem_of_all (by decide)
    rw [List.count_cons_of_ne (hne _ ho).1, List.count_cons_of_ne (hne _ ho).2, ih]
  | loop _ _ ihb ih =>
    simp only [List.count_append, List.count_cons_self, List.count_cons_of_ne (show ']' ≠ '[' by decide),
      List.count_cons_of_ne (show '[' ≠ ']' by decide), List.cons_append, ihb, ih]
    omega

theorem Sentence.not_append_close {s : List Char} (h : Sentence s) (rest : List Char) :
    ¬ Sentence (s ++ ']' :: rest) := by
  intro hmore
  obtain ⟨p, rfl⟩ := sentence_iff_exists_text.1 h
  have hnone := flaw?_eq_none_iff.2 (sentence_iff_exists_text.1 hmore)
  rw [flaw?, flawFrom?_append] at hnone
  contradiction

/-! ## Brackets that belong together -/

theorem getElem?_middle (a s b : List Char) {i : Nat} (h : i < s.length) :
    (a ++ s ++ b)[a.length + i]? = s[i]? := by
  rw [List.getElem?_append_left (by rw [List.length_append]; omega),
    List.getElem?_append_right (Nat.le_add_right _ _), Nat.add_sub_cancel_left]

theorem Closes.extend {s : List Char} {j k : Nat} (h : Closes s j k) (a b : List Char) :
    Closes (a ++ s ++ b) (a.length + j) (a.length + k) := by
  obtain ⟨hlt, hopen, hclose, hinside⟩ := h
  have hk : k < s.length := (List.getElem?_eq_some_iff.1 hclose).1
  refine ⟨by omega, ?_, ?_, ?_⟩
  · rwa [getElem?_middle a s b (by omega)]
  · rwa [getElem?_middle a s b hk]
  · have hcut : ((a ++ s ++ b).take (a.length + k)).drop (a.length + j + 1) =
        (s.take k).drop (j + 1) := by
      rw [List.append_assoc, List.take_append, List.take_of_length_le (by omega), Nat.add_sub_cancel_left,
        List.take_append_of_le_length (Nat.le_of_lt hk), Nat.add_assoc, List.drop_append,
        List.drop_of_length_le (by omega), Nat.add_sub_cancel_left, List.nil_append]
    rwa [hcut]

/-- Every opening bracket of a sentence has a partner. -/
theorem Sentence.exists_closes {s : List Char} (h : Sentence s) {j : Nat} (hj : s[j]? = some '[') :
    ∃ k, Closes s j k := by
  induction h generalizing j with
  | empty => contradiction
  | @command o rest ho _ ih =>
    cases j with
    | zero =>
      cases hj
      exact absurd ho (by decide)
    | succ j =>
      obtain ⟨k, hk⟩ := ih hj
      have hmore := hk.extend [o] []
      rw [List.append_nil, List.length_singleton, Nat.add_comm 1 j] at hmore
      exact ⟨_, hmore⟩
  | @loop body rest hbody hrest ihb ih =>
    cases j with
    | zero =>
      refine ⟨body.length + 1, Nat.succ_pos _, hj, ?_, ?_⟩
      · simp
      · simpa using hbody
    | succ j =>
      rw [List.cons_append, List.getElem?_cons_succ] at hj
      rcases Nat.lt_trichotomy j body.length with hlt | rfl | hgt
      · rw [List.getElem?_append_left hlt] at hj
        obtain ⟨k, hk⟩ := ihb hj
        have hmore := hk.extend ['['] (']' :: rest)
        rw [List.length_singleton, Nat.add_comm 1 j] at hmore
        exact ⟨_, hmore⟩
      · rw [List.getElem?_append_right (Nat.le_refl _), Nat.sub_self] at hj
        cases hj
      · obtain ⟨i, rfl⟩ := Nat.exists_eq_add_of_lt hgt
        rw [List.getElem?_append_right (by omega),
          show body.length + i + 1 - body.length = i + 1 by omega, List.getElem?_cons_succ] at hj
        obtain ⟨k, hk⟩ := ih hj
        have hmore := hk.extend ('[' :: body ++ [']']) []
        rw [List.append_nil, List.append_assoc, List.singleton_append, List.length_append, List.length_cons,
          List.length_singleton] at hmore
        rw [show body.length + i + 1 + 1 = body.length + 1 + 1 + i by omega]
        exact ⟨_, hmore⟩

/-! ## What has been read -/

/-- A beginning of a text in which the brackets at given positions, innermost first, are open:
sentences with these brackets between them. -/
inductive Pending : List Nat → List Char → Prop where
  | closed {s : List Char} (h : Sentence s) : Pending [] s
  | opened {positions : List Nat} {s t : List Char} (h : Pending positions s) (ht : Sentence t) :
      Pending (s.length :: positions) (s ++ '[' :: t)

namespace Pending

variable {positions : List Nat} {s t : List Char}

theorem append (h : Pending positions s) (ht : Sentence t) : Pending positions (s ++ t) := by
  cases h with
  | closed hs => exact .closed (hs.append ht)
  | opened hs hinner =>
    rw [List.append_assoc, List.cons_append]
    exact .opened hs (hinner.append ht)

theorem close {innermost : Nat} (h : Pending (innermost :: positions) s) :
    Pending positions (s ++ [']']) := by
  cases h with
  | opened hs hinner =>
    rw [List.append_assoc, List.cons_append]
    exact hs.append (.loop hinner .empty)

theorem count_eq (h : Pending positions s) : s.count '[' = s.count ']' + positions.length := by
  induction h with
  | closed hs => exact hs.count_eq
  | opened _ ht ih =>
    simp only [List.count_append, List.count_cons_self, List.count_cons_of_ne (show '[' ≠ ']' by decide),
      List.length_cons, ht.count_eq, ih]
    omega

theorem not_sentence {innermost : Nat} (h : Pending (innermost :: positions) s) : ¬ Sentence s := by
  intro hs
  have hcount := h.count_eq
  rw [hs.count_eq, List.length_cons] at hcount
  omega

/-- The innermost open bracket is the last one without a partner: what stands behind it is a
sentence, whose brackets have partners and which leaves none over. -/
theorem isGreatest {innermost : Nat} (h : Pending (innermost :: positions) s) :
    IsGreatest {j | Unclosed s j} innermost := by
  cases h with
  | @opened _ s t hs ht =>
    refine ⟨⟨?_, ?_⟩, ?_⟩
    · rw [List.getElem?_append_right (Nat.le_refl _), Nat.sub_self, List.getElem?_cons_zero]
    · rintro k ⟨hlt, -, hclose, hinside⟩
      obtain ⟨i, rfl⟩ := Nat.exists_eq_add_of_lt hlt
      rw [List.getElem?_append_right (by omega),
        show s.length + i + 1 - s.length = i + 1 by omega, List.getElem?_cons_succ] at hclose
      rw [List.take_append, List.take_of_length_le (by omega),
        show s.length + i + 1 - s.length = i + 1 by omega, List.take_succ_cons, List.drop_append,
        List.drop_of_length_le (by omega), Nat.add_sub_cancel_left, List.nil_append,
        List.drop_one, List.tail_cons] at hinside
      obtain ⟨hi, hget⟩ := List.getElem?_eq_some_iff.1 hclose
      have hsplit : t = t.take i ++ ']' :: t.drop (i + 1) := by
        rw [← hget, List.getElem_cons_drop, List.take_append_drop]
      rw [hsplit] at ht
      exact hinside.not_append_close _ ht
    · rintro j ⟨hopen, hfree⟩
      apply Nat.le_of_not_lt
      intro hlt
      obtain ⟨i, rfl⟩ := Nat.exists_eq_add_of_lt hlt
      rw [List.getElem?_append_right (by omega),
        show s.length + i + 1 - s.length = i + 1 by omega, List.getElem?_cons_succ] at hopen
      obtain ⟨k, hk⟩ := ht.exists_closes hopen
      have hmore := hk.extend (s ++ ['[']) []
      rw [List.append_nil, List.append_assoc, List.singleton_append, List.length_append,
        List.length_singleton, show s.length + 1 + i = s.length + i + 1 by omega] at hmore
      exact hfree _ hmore

end Pending

/-! ## Positions that break a text -/

theorem breaks_append_of_lt {s : List Char} {i : Nat} (h : i < s.length) (t : List Char) :
    Breaks (s ++ t) i ↔ Breaks s i := by
  unfold Breaks
  rw [List.getElem?_append_left h, List.take_append_of_le_length (Nat.le_of_lt h)]

theorem breaks_append_length (s : List Char) (c : Char) (t : List Char) :
    Breaks (s ++ c :: t) s.length ↔ Offends s c := by
  unfold Breaks
  rw [List.getElem?_append_right (Nat.le_refl _), Nat.sub_self, List.getElem?_cons_zero, List.take_left]
  simp

theorem not_breaks_concat {s : List Char} {c : Char} (h : ∀ i, ¬ Breaks s i) (hc : ¬ Offends s c) :
    ∀ i, ¬ Breaks (s ++ [c]) i := by
  intro i hi
  rcases Nat.lt_trichotomy i s.length with hlt | rfl | hgt
  · exact h i ((breaks_append_of_lt hlt _).1 hi)
  · exact hc ((breaks_append_length s c []).1 hi)
  · obtain ⟨d, hd, -⟩ := hi
    have hlt := (List.getElem?_eq_some_iff.1 hd).1
    rw [List.length_append, List.length_singleton] at hlt
    omega

/-- The first character that offends breaks the text, and nothing before it does. -/
theorem isLeast_breaks {s : List Char} {c : Char} (h : ∀ i, ¬ Breaks s i) (hc : Offends s c)
    (t : List Char) : IsLeast {i | Breaks (s ++ c :: t) i} s.length := by
  refine ⟨(breaks_append_length s c t).2 hc, ?_⟩
  intro i hi
  apply Nat.le_of_not_lt
  intro hlt
  exact h i ((breaks_append_of_lt hlt _).1 hi)

theorem not_mem_operators {c : Char} (h : Operator.ofChar? c = none) : c ∉ "><+-.,[]".toList := by
  have hsome : ∀ d ∈ "><+-.,[]".toList, Operator.ofChar? d ≠ none := Text.forall_mem_of_all (by decide)
  exact fun hmem => hsome c hmem h

/-! ## Verdicts -/

/-- What is to be said of a text. -/
inductive Verdict (s : List Char) : Option Flaw → Prop where
  | program (clean : ∀ i, ¬ Breaks s i) (h : Sentence s) : Verdict s none
  | unknown {c : Char} {i : Nat} (first : IsLeast {i | Breaks s i} i) (hc : s[i]? = some c)
      (h : c ∉ "><+-.,[]".toList) : Verdict s (some (.unknownOperator c i))
  | unopened {i : Nat} (first : IsLeast {i | Breaks s i} i) (hc : s[i]? = some ']') :
      Verdict s (some (.unopenedBracket i))
  | unclosed {j : Nat} (clean : ∀ i, ¬ Breaks s i) (h : ¬ Sentence s)
      (last : IsGreatest {j | Unclosed s j} j) : Verdict s (some (.unclosedBracket j))

/-- The scan says what is to be said of a text, of which a beginning that nothing breaks has been read. -/
theorem verdict_flawFrom? {opened : List Nat} {before : List Char} (h : Pending opened before)
    (clean : ∀ i, ¬ Breaks before i) (rest : List Char) :
    Verdict (before ++ rest) (flawFrom? before.length opened rest) := by
  -- what has been read stays pending, and nothing in it breaks it, while what is left gets shorter
  induction rest generalizing opened before with
  | nil =>
    rw [List.append_nil]
    cases opened with
    | nil =>
      cases h with
      | closed hs => exact .program clean hs
    | cons innermost outer => exact .unclosed clean h.not_sentence h.isGreatest
  | cons c rest ih =>
    have hnext : ∀ opened', Pending opened' (before ++ [c]) → ¬ Offends before c →
        Verdict (before ++ c :: rest) (flawFrom? (before.length + 1) opened' rest) := by
      intro opened' h' hc
      have hrest := ih h' (not_breaks_concat clean hc)
      rwa [List.append_assoc, List.singleton_append, List.length_append, List.length_singleton] at hrest
    have hget : (before ++ c :: rest)[before.length]? = some c := by
      rw [List.getElem?_append_right (Nat.le_refl _), Nat.sub_self, List.getElem?_cons_zero]
    have hplain : ∀ d ∈ "><+-.,[".toList, ¬ Offends before d := by
      have hall : ∀ d ∈ "><+-.,[".toList, d ∈ "><+-.,[]".toList ∧ d ≠ ']' :=
        Text.forall_mem_of_all (by decide)
      rintro d hd (hnot | ⟨rfl, -⟩)
      · exact hnot (hall d hd).1
      · exact (hall _ hd).2 rfl
    rcases char_cases c with ⟨d, rfl⟩ | rfl | rfl | hnone
    · rw [flawFrom?_command]
      refine hnext opened (h.append (.command d.char_mem .empty)) (hplain _ ?_)
      cases d <;> decide
    · rw [flawFrom?_open]
      exact hnext _ (.opened h .empty) (hplain _ (by decide))
    · have hcount := h.count_eq
      cases opened with
      | nil => exact .unopened (isLeast_breaks clean (.inr ⟨rfl, hcount⟩) rest) hget
      | cons innermost outer =>
        rw [flawFrom?_close]
        refine hnext outer h.close ?_
        rintro (hnot | ⟨-, heq⟩)
        · exact hnot (by decide)
        · rw [heq, List.length_cons] at hcount
          omega
    · have hunknown := not_mem_operators hnone
      have hflaw : flawFrom? before.length opened (c :: rest) =
          some (.unknownOperator c before.length) := by
        cases opened <;> simp [flawFrom?, hnone]
      rw [hflaw]
      exact .unknown (isLeast_breaks clean (.inl hunknown) rest) hget hunknown

theorem verdict_flaw? (s : List Char) : Verdict s (flaw? s) :=
  verdict_flawFrom? (.closed .empty) (by rintro i ⟨c, hc, -⟩; contradiction) s

theorem Verdict.unique {s : List Char} {r r' : Option Flaw} (h : Verdict s r) (h' : Verdict s r') :
    r = r' := by
  have hclosing : ']' ∈ "><+-.,[]".toList := by decide
  cases h with
  | program clean hs =>
    cases h' with
    | program => rfl
    | unknown first => exact absurd first.1 (clean _)
    | unopened first => exact absurd first.1 (clean _)
    | unclosed _ hnot => exact absurd hs hnot
  | unknown first hc hunknown =>
    cases h' with
    | program clean => exact absurd first.1 (clean _)
    | unknown first' hc' =>
      obtain rfl := first.unique first'
      rw [hc] at hc'
      cases hc'
      rfl
    | unopened first' hc' =>
      obtain rfl := first.unique first'
      rw [hc] at hc'
      cases hc'
      exact absurd hclosing hunknown
    | unclosed clean => exact absurd first.1 (clean _)
  | unopened first hc =>
    cases h' with
    | program clean => exact absurd first.1 (clean _)
    | unknown first' hc' hunknown =>
      obtain rfl := first.unique first'
      rw [hc] at hc'
      cases hc'
      exact absurd hclosing hunknown
    | unopened first' => rw [first.unique first']
    | unclosed clean => exact absurd first.1 (clean _)
  | unclosed clean hnot last =>
    cases h' with
    | program _ hs => exact absurd hs hnot
    | unknown first => exact absurd first.1 (clean _)
    | unopened first => exact absurd first.1 (clean _)
    | unclosed _ _ last' => rw [last.unique last']

theorem flaw?_eq_iff {s : List Char} {r : Option Flaw} : flaw? s = r ↔ Verdict s r :=
  ⟨fun h => h ▸ verdict_flaw? s, (verdict_flaw? s).unique⟩

theorem ensureProgram_eq_error_iff {s : List Char} {flaw : Flaw} :
    ensureProgram s = .error flaw ↔ Verdict s (some flaw) := by
  rw [← flaw?_eq_iff, ensureProgram]
  cases flaw? s <;> simp

theorem ensureProgram_eq_ok_iff {s : List Char} : ensureProgram s = .ok () ↔ Sentence s := by
  rw [sentence_iff_exists_text, ← flaw?_eq_none_iff, ensureProgram]
  cases flaw? s <;> simp

/-- The accepted texts are those of the grammar. Of any other text, the first position that breaks it
is reported with its kind; if there is none, the last opening bracket without a partner. -/
theorem ensureProgram_iff (s : List Char) :
    (ensureProgram s = .ok () ↔ Sentence s) ∧
      (∀ c i, ensureProgram s = .error (.unknownOperator c i) ↔
        IsLeast {i | Breaks s i} i ∧ s[i]? = some c ∧ c ∉ "><+-.,[]".toList) ∧
      (∀ i, ensureProgram s = .error (.unopenedBracket i) ↔
        IsLeast {i | Breaks s i} i ∧ s[i]? = some ']') ∧
      ∀ j, ensureProgram s = .error (.unclosedBracket j) ↔
        ¬ Sentence s ∧ (∀ i, ¬ Breaks s i) ∧ IsGreatest {j | Unclosed s j} j := by
  refine ⟨ensureProgram_eq_ok_iff, fun c i => ?_, fun i => ?_, fun j => ?_⟩
  · rw [ensureProgram_eq_error_iff]
    constructor
    · rintro ⟨⟩
      exact ⟨‹_›, ‹_›, ‹_›⟩
    · rintro ⟨first, hc, h⟩
      exact .unknown first hc h
  · rw [ensureProgram_eq_error_iff]
    constructor
    · rintro ⟨⟩
      exact ⟨‹_›, ‹_›⟩
    · rintro ⟨first, hc⟩
      exact .unopened first hc
  · rw [ensureProgram_eq_error_iff]
    constructor
    · rintro ⟨⟩
      exact ⟨‹_›, ‹_›, ‹_›⟩
    · rintro ⟨h, clean, last⟩
      exact .unclosed clean h last

example : ensureProgram "[+]]x".toList = .error (.unopenedBracket 3) := by decide

example : ensureProgram "[[][".toList = .error (.unclosedBracket 3) := by decide

end Brainfuck
