import Brainfuck.Proofs.Acceptance
import Mathlib.Data.List.Forall2

/-!
# The languages of the rules

What each of the five rules takes from a text is compared with a language that is described without
the scan that finds it. The text may have any characters, and may end anywhere.

* `Longest`, `Answers` : the longest beginning of a text that belongs to a language, and the right
  answer to a text, which there is one of only (`answers_iff`);
* `IsPrint`, `IsRead`, `IsRow`, `IsLoop` : the languages;
* `answers_classRun?`, `answers_printRun?` : rows, and outputs with what stands between them;
* `isGap_iff`, `furtherReads_eq`, `prefix_furtherReads` : the gaps between reads, and that neither too
  many nor too few reads are taken (`answers_readRun?`);
* `closingAnswer_throughClosing?`, `IsLoop.length_le` : the bracket at which a loop ends, and that of two
  loops in one place none is longer (`answers_loop?`);
* `recognise_longest` : the answers of all rules.
-/

namespace Brainfuck

open Codegen

/-! ## Longest beginnings -/

/-- The longest beginning of a text that belongs to a language. -/
structure Longest (language : List Char → Prop) (s t : List Char) : Prop where
  starts : t <+: s
  belongs : language t
  longest : ∀ u, u <+: s → language u → u.length ≤ t.length

/-- The right answer to a text: the longest beginning that belongs to a language, or nothing if no
beginning does. -/
def Answers (language : List Char → Prop) (s : List Char) : Option (List Char) → Prop
  | some t => Longest language s t
  | none => ∀ t, t <+: s → ¬ language t

variable {language : List Char → Prop} {s t u : List Char}

theorem Longest.unique (ht : Longest language s t) (hu : Longest language s u) : t = u := by
  have hle := hu.longest t ht.starts ht.belongs
  have hge := ht.longest u hu.starts hu.belongs
  exact (List.prefix_of_prefix_length_le ht.starts hu.starts hle).eq_of_length (by omega)

theorem answers_iff {answer : Option (List Char)} (h : Answers language s answer) :
    (∀ t, answer = some t ↔ Longest language s t) ∧
      (answer = none ↔ ∀ t, t <+: s → ¬ language t) := by
  cases answer with
  | none =>
    refine ⟨fun t => iff_of_false nofun fun ht => ?_, iff_of_true rfl h⟩
    exact h t ht.starts ht.belongs
  | some t =>
    refine ⟨fun u => ⟨?_, fun hu => congrArg some (Longest.unique h hu)⟩, ?_⟩
    · rintro ⟨⟩
      exact h
    · refine iff_of_false nofun fun hnone => ?_
      exact hnone t (Longest.starts h) (Longest.belongs h)

/-! ## The languages -/

/-- Outputs, moves and changes, from an output to an output. -/
structure IsPrint (t : List Char) : Prop where
  chars : ∀ c ∈ t, c ∈ ".><+-".toList
  first : t.head? = some '.'
  last : t.getLast? = some '.'

def displacement (t : List Char) : Int := (t.count '>' : Int) - t.count '<'

/-- Moves and changes that lead to the next cell, with changes made there only. -/
structure IsReadGap (t : List Char) : Prop where
  chars : ∀ c ∈ t, c ∈ "><+-".toList
  total : displacement t = 1
  changes : ∀ i c, t[i]? = some c → c = '+' ∨ c = '-' → displacement (t.take i) = 1

/-- Reads, with a gap between neighbours. -/
def IsRead (t : List Char) : Prop :=
  ∃ gaps : List (List Char), (∀ gap ∈ gaps, IsReadGap gap) ∧ t = ',' :: gaps.flatMap (· ++ [','])

/-- A row of the given characters: of changes, or of moves. -/
def IsRow (chars t : List Char) : Prop := t ≠ [] ∧ ∀ c ∈ t, c ∈ chars

/-- As many closing brackets as opening ones, of which the first is the first character, and fewer in every
beginning. -/
structure IsLoop (t : List Char) : Prop where
  opens : t.head? = some '['
  balanced : t.count '[' = t.count ']'
  inside : ∀ u, u <+: t → u ≠ [] → u ≠ t → u.count ']' < u.count '['

/-! ## Rows -/

theorem prefix_takeWhile {q : Char → Bool} (hu : u <+: s) (hall : ∀ c ∈ u, q c = true) :
    u <+: s.takeWhile q := by
  obtain ⟨rest, rfl⟩ := hu
  rw [List.takeWhile_append_of_pos hall]
  exact List.prefix_append u _

theorem answers_classRun? {q : Char → Bool} {chars : List Char}
    (hq : ∀ c, q c = true ↔ c ∈ chars) (s : List Char) :
    Answers (IsRow chars) s (classRun? q s) := by
  have hstart : ∀ t, t <+: s → (∀ c ∈ t, c ∈ chars) → t <+: s.takeWhile q := by
    intro t ht hall
    apply prefix_takeWhile ht
    intro c hc
    exact (hq c).2 (hall c hc)
  cases hrun : classRun? q s with
  | none =>
    have hnil : s.takeWhile q = [] := by
      unfold classRun? at hrun
      split at hrun
      · assumption
      · contradiction
    rintro t ht ⟨hne, hall⟩
    have h := hstart t ht hall
    rw [hnil, List.prefix_nil] at h
    exact hne h
  | some t =>
    obtain rfl := classRun?_eq_some hrun
    refine ⟨List.takeWhile_prefix q, ⟨?_, ?_⟩, ?_⟩
    · intro hnil
      rw [classRun?, hnil] at hrun
      contradiction
    · intro c hc
      exact (hq c).1 (List.mem_takeWhile_imp hc)
    · rintro u hu ⟨-, hall⟩
      exact (hstart u hu hall).length_le

theorem isChange_iff (c : Char) : isChange c = true ↔ c ∈ "+-".toList := by
  simp [isChange]

theorem isShift_iff (c : Char) : isShift c = true ↔ c ∈ "><".toList := by
  simp [isShift]

theorem isSilent_iff (c : Char) : isSilent c = true ↔ c ∈ "><+-".toList := by
  simp [isSilent, isShift, isChange, or_assoc]

/-! ## Outputs -/

theorem prefix_dropEndWhile {q : Char → Bool} {c : Char} (hu : u <+: s) (hlast : u.getLast? = some c)
    (hc : q c = false) : u <+: Text.dropEndWhile q s := by
  obtain ⟨rest, rfl⟩ := hu
  have hself : Text.dropEndWhile q u = u := by
    apply Text.dropEndWhile_of_last
    intro d hd
    rw [hlast] at hd
    cases hd
    exact hc
  by_cases hall : (rest.reverse.dropWhile q).isEmpty = true
  · have hcut : Text.dropEndWhile q (u ++ rest) = Text.dropEndWhile q u := by
      simp only [Text.dropEndWhile, List.reverse_append, List.dropWhile_append, hall, if_true]
    refine ⟨[], ?_⟩
    rw [List.append_nil, hcut, hself]
  · have hcut : Text.dropEndWhile q (u ++ rest) = u ++ Text.dropEndWhile q rest := by
      simp [Text.dropEndWhile, List.dropWhile_append, hall]
    rw [hcut]
    exact List.prefix_append u _

theorem getLast?_dropEndWhile {q : Char → Bool} {c : Char}
    (h : (Text.dropEndWhile q s).getLast? = some c) : q c = false := by
  rw [Text.dropEndWhile, List.getLast?_reverse] at h
  have hhead := List.head?_dropWhile_not q s.reverse
  rw [h] at hhead
  exact hhead

theorem answers_printRun? (s : List Char) : Answers IsPrint s (printRun? s) := by
  have hclass : ∀ c, (c == '.' || isSilent c) = true ↔ c ∈ ".><+-".toList := by
    intro c
    rw [Bool.or_eq_true, isSilent_iff, beq_iff_eq]
    simp
  unfold printRun?
  split
  · rename_i rest
    generalize hs : '.' :: rest = s
    have hlongest : ∀ u, u <+: s → IsPrint u →
        u <+: Text.dropEndWhile (· != '.') (s.takeWhile fun c => c == '.' || isSilent c) := by
      intro u hu hprint
      refine prefix_dropEndWhile (prefix_takeWhile hu fun c hc => ?_) hprint.last rfl
      exact (hclass c).2 (hprint.chars c hc)
    -- the first output alone belongs to the language, so at least that is taken
    obtain ⟨others, hothers⟩ := hlongest ['.'] ⟨rest, hs⟩ ⟨by simp, rfl, rfl⟩
    have hstart := Text.dropEndWhile_prefix_self (· != '.')
      (s.takeWhile fun c => c == '.' || isSilent c)
    refine ⟨hstart.trans (List.takeWhile_prefix _), ⟨?_, ?_, ?_⟩, ?_⟩
    · intro c hc
      have hc := List.mem_takeWhile_imp (hstart.subset hc)
      exact (hclass c).1 hc
    · rw [← hothers]
      rfl
    · obtain ⟨c, hc⟩ : ∃ c, (Text.dropEndWhile (· != '.')
          (s.takeWhile fun c => c == '.' || isSilent c)).getLast? = some c := by
        rw [← hothers]
        exact ⟨_, List.getLast?_cons⟩
      have hdot := getLast?_dropEndWhile hc
      rw [hc, show c = '.' by simpa using hdot]
    · intro u hu hprint
      exact (hlongest u hu hprint).length_le
  · rename_i hne
    rintro t ⟨rest, rfl⟩ hprint
    obtain ⟨tail, rfl⟩ := List.head?_eq_some_iff.1 hprint.first
    exact hne _ rfl

/-! ## Reads -/

theorem displacement_cons (c : Char) (t : List Char) :
    displacement (c :: t) =
      (if c = '>' then 1 else 0) - (if c = '<' then 1 else 0) + displacement t := by
  simp only [displacement, List.count_cons, beq_iff_eq]
  split <;> split <;> omega

/-- What a condition on the characters of a text and on what stands before them says of the first
character and of the others. -/
theorem forall_getElem?_cons {P : Char → Prop} {Q : List Char → Prop} {c : Char} :
    (∀ i d, (c :: t)[i]? = some d → P d → Q ((c :: t).take i)) ↔
      (P c → Q []) ∧ ∀ i d, t[i]? = some d → P d → Q (c :: t.take i) := by
  constructor
  · intro h
    exact ⟨fun hc => h 0 c rfl hc, fun i d hd hp => h (i + 1) d hd hp⟩
  · rintro ⟨hfirst, hothers⟩ i d hd hp
    cases i with
    | zero =>
      cases hd
      exact hfirst hp
    | succ i => exact hothers i d hd hp

/-- The test for a gap that is already displaced says where it leads and where its changes are made. -/
theorem isGapFrom_iff (ht : ∀ c ∈ t, isSilent c = true) (offset : Int) :
    isGapFrom offset t = true ↔ offset + displacement t = 1 ∧
      ∀ i c, t[i]? = some c → c = '+' ∨ c = '-' → offset + displacement (t.take i) = 1 := by
  induction t generalizing offset with
  | nil => simp [isGapFrom, displacement]
  | cons c t ih =>
    rw [List.forall_mem_cons] at ht
    rw [forall_getElem?_cons (P := fun c => c = '+' ∨ c = '-')
      (Q := fun before => offset + displacement before = 1)]
    simp only [displacement_cons c, ← Int.add_assoc]
    have hc := (isSilent_iff c).1 ht.1
    have hcases : c = '>' ∨ c = '<' ∨ c = '+' ∨ c = '-' := by simpa using hc
    -- a move displaces what follows; a change is made where the offset has come to the next cell
    rcases hcases with rfl | rfl | rfl | rfl
    · rw [isGapFrom, ih ht.2]
      simp
    · rw [isGapFrom, ih ht.2]
      simp [Int.sub_eq_add_neg]
    all_goals
      have hgap := ih ht.2 offset
      simp [isGapFrom, hgap, show displacement [] = 0 from rfl, and_left_comm]

theorem isGap_iff (ht : ∀ c ∈ t, isSilent c = true) : isGap t = true ↔ IsReadGap t := by
  have h := isGapFrom_iff ht 0
  simp only [Int.zero_add] at h
  rw [isGap, h]
  constructor
  · intro hgap
    exact ⟨fun c hc => (isSilent_iff c).1 (ht c hc), hgap.1, hgap.2⟩
  · intro hgap
    exact ⟨hgap.total, hgap.changes⟩

theorem IsReadGap.silent (h : IsReadGap t) : ∀ c ∈ t, isSilent c = true :=
  fun c hc => (isSilent_iff c).2 (h.chars c hc)

theorem furtherReads_eq (fuel s : List Char) :
    ∃ gaps : List (List Char), (∀ gap ∈ gaps, IsReadGap gap) ∧
      furtherReads fuel s = gaps.flatMap (· ++ [',']) := by
  induction fuel generalizing s with
  | nil => exact ⟨[], nofun, rfl⟩
  | cons _ fuel ih =>
    rw [furtherReads]
    split
    · rename_i rest hrest
      split
      · rename_i hgap
        obtain ⟨gaps, hgaps, hfurther⟩ := ih rest
        refine ⟨s.takeWhile isSilent :: gaps, ?_, ?_⟩
        · rw [List.forall_mem_cons]
          exact ⟨(isGap_iff fun c hc => List.mem_takeWhile_imp hc).1 hgap, hgaps⟩
        · rw [hfurther, List.flatMap_cons, List.append_assoc]
          rfl
      · exact ⟨[], nofun, rfl⟩
    · exact ⟨[], nofun, rfl⟩

/-- No read that stands behind gaps is left out. -/
theorem prefix_furtherReads {gaps : List (List Char)} (hgaps : ∀ gap ∈ gaps, IsReadGap gap)
    {fuel : List Char} (hfuel : s.length ≤ fuel.length) (h : gaps.flatMap (· ++ [',']) <+: s) :
    gaps.flatMap (· ++ [',']) <+: furtherReads fuel s := by
  induction gaps generalizing fuel s with
  | nil => exact List.nil_prefix
  | cons gap gaps ih =>
    rw [List.forall_mem_cons] at hgaps
    rw [List.flatMap_cons, List.append_assoc, List.singleton_append] at h ⊢
    obtain ⟨rest, hrest⟩ := h
    rw [List.append_assoc, List.cons_append] at hrest
    cases fuel with
    | nil =>
      rw [← hrest] at hfuel
      simp at hfuel
    | cons d fuel =>
      have hsilent := hgaps.1.silent
      -- the gap ends where the read stands, since a read is not silent
      have htake : s.takeWhile isSilent = gap := by
        rw [← hrest, List.takeWhile_append_of_pos hsilent, List.takeWhile_cons_of_neg (by decide),
          List.append_nil]
      have hdrop : s.dropWhile isSilent = ',' :: (gaps.flatMap (· ++ [',']) ++ rest) := by
        rw [← hrest, List.dropWhile_append_of_pos hsilent, List.dropWhile_cons_of_neg (by decide)]
      rw [furtherReads, htake, hdrop]
      simp only [(isGap_iff hsilent).2 hgaps.1, if_true]
      refine (List.prefix_append_right_inj _).2 (List.cons_prefix_cons.2 ⟨rfl, ?_⟩)
      apply ih hgaps.2 _ (List.prefix_append _ rest)
      rw [← hrest] at hfuel
      simp only [List.length_append, List.length_cons] at hfuel ⊢
      omega

theorem answers_readRun? (s : List Char) : Answers IsRead s (readRun? s) := by
  unfold readRun?
  split
  · rename_i rest
    obtain ⟨gaps, hgaps, hfurther⟩ := furtherReads_eq rest rest
    refine ⟨?_, ⟨gaps, hgaps, by rw [hfurther]⟩, ?_⟩
    · exact List.cons_prefix_cons.2 ⟨rfl, (furtherReads_spec rest rest).1⟩
    · rintro u hu ⟨gaps', hgaps', rfl⟩
      have hrest := (List.cons_prefix_cons.1 hu).2
      have hle := (prefix_furtherReads hgaps' (Nat.le_refl _) hrest).length_le
      simp only [List.length_cons]
      omega
  · rename_i hne
    rintro t ⟨rest, rfl⟩ ⟨gaps, -, rfl⟩
    exact hne _ rfl

/-! ## Loops -/

/-- A text closes no more brackets than it opens and than `depth` that are open before it. -/
def StaysOpen (depth : Nat) (t : List Char) : Prop := t.count ']' ≤ t.count '[' + depth

/-- The last character closes the last of `depth + 1` brackets that are open before the text. -/
structure Closing (depth : Nat) (t : List Char) : Prop where
  closed : t.count ']' = t.count '[' + depth + 1
  inside : ∀ u, u <+: t → u ≠ t → StaysOpen depth u

/-- The right answer to the search for the end of `depth + 1` open brackets. -/
def ClosingAnswer (depth : Nat) (s : List Char) : Option (List Char) → Prop
  | some t => Closing depth t
  | none => ∀ u, u <+: s → StaysOpen depth u

section

variable {depth depth' : Nat} {c : Char}
  (hdepth : depth' + (if c = ']' then 1 else 0) = depth + if c = '[' then 1 else 0)

include hdepth

theorem staysOpen_cons : StaysOpen depth (c :: t) ↔ StaysOpen depth' t := by
  simp only [StaysOpen, List.count_cons, beq_iff_eq]
  omega

theorem closingAnswer_cons {answer : Option (List Char)} (h : ClosingAnswer depth' s answer) :
    ClosingAnswer depth (c :: s) (answer.map (c :: ·)) := by
  have hcons : ∀ u, u = [] ∨ (∃ v, u = c :: v ∧ StaysOpen depth' v) → StaysOpen depth u := by
    rintro u (rfl | ⟨v, rfl, hv⟩)
    · exact Nat.zero_le _
    · exact (staysOpen_cons hdepth).2 hv
  cases answer with
  | none =>
    intro u hu
    apply hcons
    rcases List.prefix_cons_iff.1 hu with rfl | ⟨v, rfl, hv⟩
    · exact .inl rfl
    · exact .inr ⟨v, rfl, h v hv⟩
  | some t =>
    refine ⟨?_, fun u hu hne => hcons u ?_⟩
    · have hclosed := h.closed
      simp only [List.count_cons, beq_iff_eq]
      omega
    · rcases List.prefix_cons_iff.1 hu with rfl | ⟨v, rfl, hv⟩
      · exact .inl rfl
      · exact .inr ⟨v, rfl, h.inside v hv fun heq => hne (heq ▸ rfl)⟩

end

/-- The search stops at the bracket that closes the open ones, and finds nothing only if there is none. -/
theorem closingAnswer_throughClosing? (depth : Nat) (s : List Char) :
    ClosingAnswer depth s (throughClosing? depth s) := by
  induction s generalizing depth with
  | nil =>
    rw [throughClosing?]
    intro u hu
    rw [List.prefix_nil.1 hu]
    exact Nat.zero_le _
  | cons c s ih =>
    by_cases hopen : c = '['
    · subst hopen
      rw [throughClosing?]
      exact closingAnswer_cons (by simp) (ih (depth + 1))
    by_cases hclose : c = ']'
    · subst hclose
      cases depth with
      | succ depth =>
        rw [throughClosing?]
        exact closingAnswer_cons (by simp) (ih depth)
      | zero =>
        rw [throughClosing?]
        refine ⟨rfl, fun u hu hne => ?_⟩
        rcases List.prefix_cons_iff.1 hu with rfl | ⟨v, rfl, hv⟩
        · exact Nat.zero_le _
        · exact absurd (by rw [List.prefix_nil.1 hv]) hne
    · have hother : throughClosing? depth (c :: s) = (throughClosing? depth s).map (c :: ·) := by
        cases depth <;> simp [throughClosing?, hclose]
      rw [hother]
      exact closingAnswer_cons (by simp [hopen, hclose]) (ih depth)

theorem isLoop_cons_iff : IsLoop ('[' :: t) ↔ Closing 0 t := by
  have hcount : ∀ v : List Char, ('[' :: v).count ']' < ('[' :: v).count '[' ↔ StaysOpen 0 v := by
    intro v
    rw [List.count_cons_self, List.count_cons_of_ne (by decide), StaysOpen]
    omega
  constructor
  · rintro ⟨-, hbalanced, hinside⟩
    refine ⟨?_, fun u hu hne => ?_⟩
    · rw [List.count_cons_self, List.count_cons_of_ne (by decide)] at hbalanced
      omega
    · apply (hcount u).1
      apply hinside _ (List.cons_prefix_cons.2 ⟨rfl, hu⟩) (List.cons_ne_nil _ _)
      intro heq
      exact hne (List.cons.inj heq).2
  · rintro ⟨hclosed, hinside⟩
    refine ⟨rfl, ?_, fun u hu hne hproper => ?_⟩
    · rw [List.count_cons_self, List.count_cons_of_ne (by decide)]
      omega
    · obtain ⟨v, rfl, hv⟩ := (List.prefix_cons_iff.1 hu).resolve_left hne
      apply (hcount v).2
      apply hinside v hv
      rintro rfl
      exact hproper rfl

theorem IsLoop.length_le (ht : IsLoop t) (hu : IsLoop u) (hts : t <+: s) (hus : u <+: s) :
    u.length ≤ t.length := by
  by_contra hlt
  have hstart := List.prefix_of_prefix_length_le hts hus (by omega)
  have hne : t ≠ [] := by
    rintro rfl
    exact absurd ht.opens nofun
  have hinside := hu.inside t hstart hne (by rintro rfl; omega)
  have := ht.balanced
  omega

theorem answers_loop? (s : List Char) : Answers IsLoop s (loop? s) := by
  unfold loop?
  split
  · rename_i rest
    have h := closingAnswer_throughClosing? 0 rest
    cases hresult : throughClosing? 0 rest with
    | none =>
      rw [hresult] at h
      intro u hu hloop
      obtain ⟨v, rfl⟩ := List.head?_eq_some_iff.1 hloop.opens
      have hclosed := (isLoop_cons_iff.1 hloop).closed
      have hopen : v.count ']' ≤ v.count '[' + 0 := h v (List.cons_prefix_cons.1 hu).2
      omega
    | some t =>
      rw [hresult] at h
      have hstarts : '[' :: t <+: '[' :: rest :=
        List.cons_prefix_cons.2 ⟨rfl, (throughClosing?_eq_some hresult).1⟩
      have hloop : IsLoop ('[' :: t) := isLoop_cons_iff.2 h
      exact ⟨hstarts, hloop, fun u hu hu' => hloop.length_le hu' hstarts hu⟩
  · rename_i hne
    rintro t ⟨rest, rfl⟩ hloop
    obtain ⟨tail, rfl⟩ := List.head?_eq_some_iff.1 hloop.opens
    exact hne _ rfl

/-! ## All rules -/

/-- Wherever a rule is asked, also behind the end of the text, it takes the longest beginning of what is
left that belongs to its language, and nothing exactly if no beginning does. -/
theorem recognise_longest (s : List Char) (start : Nat) :
    List.Forall₂ (fun rule language => ∃ answer, rule.recognise (s.drop start) = .ok answer ∧
        (∀ t, answer = some t ↔ Longest language (s.drop start) t) ∧
        (answer = none ↔ ∀ t, t <+: s.drop start → ¬ language t))
      Rule.standard [IsPrint, IsRead, IsRow "+-".toList, IsRow "><".toList, IsLoop] := by
  generalize s.drop start = rest
  refine .cons ?_ (.cons ?_ (.cons ?_ (.cons ?_ (.cons ?_ .nil))))
  · exact ⟨_, rfl, answers_iff (answers_printRun? rest)⟩
  · exact ⟨_, rfl, answers_iff (answers_readRun? rest)⟩
  · exact ⟨_, rfl, answers_iff (answers_classRun? isChange_iff rest)⟩
  · exact ⟨_, rfl, answers_iff (answers_classRun? isShift_iff rest)⟩
  · exact ⟨_, rfl, answers_iff (answers_loop? rest)⟩

end Brainfuck
