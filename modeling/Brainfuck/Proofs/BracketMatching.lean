import Brainfuck.Codegen.StandardRules
import Brainfuck.Proofs.Grammar

/-!
# Two searches for matching brackets

The interpreter looks up where a bracket jumps to in a table made in one pass over the whole text. The
rule for loops counts depth from an opening bracket on and sees nothing of what stands before it. Both
find the brackets that belong together in the grammar.

* `JumpsTo` : the table sends one position to another; in the text of a tree, the brackets of its loops
  to each other (`jumpsTo_text`);
* `closes_of_mem_pairs`, `mem_ends_of_bracket` : the brackets of a loop belong together, and there are
  no others;
* `nested_pairs` : two loops lie one inside the other or apart;
* `Closes.loop?_eq` : the rule for loops stops at the bracket that belongs to the first;
* `jumpTable_loop_recognise` : the table of a program, and the rule at each of its opening brackets.
-/

namespace Brainfuck

open Codegen

/-- The table of jumps sends one position of a text to another. -/
def JumpsTo (text : List Char) (i j : Nat) : Prop := (jumpTable text)[i]? = some (some j)

/-! ## The brackets of a tree -/

theorem closes_of_mem_pairs {p : Program} {a i j : Nat} (h : (i, j) ∈ p.pairs a) :
    ∃ k l, i = a + k ∧ j = a + l ∧ Closes p.text k l := by
  induction p generalizing a with
  | done => contradiction
  | command c p ih =>
    obtain ⟨k, l, rfl, rfl, hcloses⟩ := ih h
    have hmore := hcloses.extend [c.char] []
    rw [List.append_nil] at hmore
    exact ⟨1 + k, 1 + l, by omega, by omega, hmore⟩
  | loop body p ihb ih =>
    rw [Program.pairs, List.mem_append, List.mem_cons] at h
    rcases h with h | h | h
    · obtain ⟨k, l, rfl, rfl, hcloses⟩ := ihb h
      exact ⟨1 + k, 1 + l, by omega, by omega, hcloses.extend ['['] (']' :: p.text)⟩
    · obtain ⟨rfl, rfl⟩ := Prod.mk.inj h
      have hbody : Sentence body.text := sentence_iff_exists_text.2 ⟨body, rfl⟩
      refine ⟨0, body.length + 1, rfl, rfl, Nat.succ_pos _, rfl, ?_, ?_⟩
      · simp [Program.text]
      · simpa [Program.text] using hbody
    · obtain ⟨k, l, rfl, rfl, hcloses⟩ := ih h
      have hmore := hcloses.extend ('[' :: body.text ++ [']']) []
      rw [List.append_nil, List.append_assoc, List.singleton_append, List.length_append,
        List.length_cons, List.length_singleton] at hmore
      exact ⟨body.length + 1 + 1 + k, body.length + 1 + 1 + l, by omega, by omega, hmore⟩

theorem mem_ends_of_bracket {p : Program} (a : Nat) {k : Nat}
    (h : p.text[k]? = some '[' ∨ p.text[k]? = some ']') : a + k ∈ ends (p.pairs a) := by
  induction p generalizing a k with
  | done => rcases h with h | h <;> contradiction
  | command c p ih =>
    cases k with
    | zero =>
      simp only [Program.text, List.getElem?_cons_zero, Option.some.injEq] at h
      rcases h with h | h <;> cases c <;> exact absurd h (by decide)
    | succ k =>
      have hrest := ih (a + 1) h
      rwa [Nat.add_right_comm] at hrest
  | loop body p ihb ih =>
    rw [ends_pairs_loop, List.mem_append, List.mem_cons, List.mem_cons]
    cases k with
    | zero => exact .inr (.inl rfl)
    | succ k =>
      simp only [Program.text, List.cons_append, List.getElem?_cons_succ] at h
      rcases Nat.lt_trichotomy k body.length with hlt | rfl | hgt
      · rw [List.getElem?_append_left hlt] at h
        have hinside := ihb (a + 1) h
        rw [Nat.add_right_comm] at hinside
        exact .inl hinside
      · exact .inr (.inr (.inl rfl))
      · obtain ⟨l, rfl⟩ := Nat.exists_eq_add_of_lt hgt
        have hle : body.text.length ≤ body.length + l + 1 := by
          change body.length ≤ _
          omega
        rw [List.getElem?_append_right hle,
          show body.length + l + 1 - body.length = l + 1 by omega, List.getElem?_cons_succ] at h
        have hrest := ih (a + body.length + 2) h
        rw [show a + body.length + 2 + l = a + (body.length + l + 1 + 1) by omega] at hrest
        exact .inr (.inr (.inr hrest))

/-- Of two loops, the one that begins later ends before the other or begins behind it. -/
theorem nested_pairs {p : Program} {a : Nat} {first second : Nat × Nat} (h : first ∈ p.pairs a)
    (h' : second ∈ p.pairs a) (hlt : first.1 < second.1) :
    second.2 < first.2 ∨ first.2 < second.1 := by
  have hends {q : Program} {i : Nat} {pair : Nat × Nat} (hpair : pair ∈ q.pairs i) :
      (i ≤ pair.1 ∧ pair.1 < i + q.length) ∧ i ≤ pair.2 ∧ pair.2 < i + q.length :=
    ⟨mem_ends_pairs (List.mem_flatMap.2 ⟨pair, hpair, by simp⟩),
      mem_ends_pairs (List.mem_flatMap.2 ⟨pair, hpair, by simp⟩)⟩
  induction p generalizing a with
  | done => contradiction
  | command c p ih => exact ih h h'
  | loop body p ihb ih =>
    rw [Program.pairs, List.mem_append, List.mem_cons] at h h'
    rcases h with h | rfl | h <;> rcases h' with h' | rfl | h'
    · exact ihb h h'
    · have := hends h
      simp only at hlt
      omega
    · have := hends h
      have := hends h'
      omega
    · have := hends h'
      simp only
      omega
    · exact absurd hlt (Nat.lt_irrefl _)
    · have := hends h'
      simp only
      omega
    · have := hends h
      have := hends h'
      omega
    · have := hends h
      simp only at hlt
      omega
    · exact ih h h'

/-! ## The table -/

theorem mem_of_partner? {pairs : List (Nat × Nat)} {i j : Nat} (h : partner? pairs i = some j) :
    (i, j) ∈ pairs ∨ (j, i) ∈ pairs := by
  obtain ⟨⟨first, last⟩, hmem, hpair⟩ := List.exists_of_findSome?_eq_some h
  simp only at hpair
  split at hpair
  · rename_i hfirst
    cases hpair
    exact .inl (hfirst ▸ hmem)
  · split at hpair
    · rename_i hlast
      cases hpair
      exact .inr (hlast ▸ hmem)
    · contradiction

theorem jumpsTo_iff {text : List Char} {i j : Nat} :
    JumpsTo text i j ↔ i < text.length ∧ partner? (bracketPairs text) i = some j := by
  rw [JumpsTo, jumpTable, List.getElem?_toArray, List.getElem?_map]
  by_cases hlt : i < text.length
  · rw [List.getElem?_range hlt]
    simp [hlt]
  · rw [List.getElem?_eq_none (by simpa using hlt)]
    simp [hlt]

/-- In the text of a tree, the table sends the brackets of a loop to each other. -/
theorem jumpsTo_text {p : Program} {i j : Nat} :
    JumpsTo p.text i j ↔ (i, j) ∈ p.pairs 0 ∨ (j, i) ∈ p.pairs 0 := by
  rw [jumpsTo_iff]
  constructor
  · rintro ⟨-, hpartner⟩
    rw [bracketPairs_text] at hpartner
    exact mem_of_partner? hpartner
  · intro h
    have hmem : i ∈ ends (p.pairs 0) := by
      rcases h with h | h
      · exact List.mem_flatMap.2 ⟨(i, j), h, by simp⟩
      · exact List.mem_flatMap.2 ⟨(j, i), h, by simp⟩
    refine ⟨by simpa using (mem_ends_pairs hmem).2, ?_⟩
    rcases h with h | h
    · exact (partner?_pairs h).1
    · exact (partner?_pairs h).2

/-- The table has an entry for a position exactly if a bracket stands there. -/
theorem exists_jumpsTo_iff {p : Program} {i : Nat} :
    (∃ j, JumpsTo p.text i j) ↔ p.text[i]? = some '[' ∨ p.text[i]? = some ']' := by
  constructor
  · rintro ⟨j, h⟩
    rcases jumpsTo_text.1 h with h | h
    · obtain ⟨k, l, rfl, rfl, -, hopen, -⟩ := closes_of_mem_pairs h
      rw [Nat.zero_add]
      exact .inl hopen
    · obtain ⟨k, l, rfl, rfl, -, -, hclose, -⟩ := closes_of_mem_pairs h
      rw [Nat.zero_add]
      exact .inr hclose
  · intro h
    have hmem := mem_ends_of_bracket 0 h
    rw [Nat.zero_add] at hmem
    obtain ⟨⟨first, last⟩, hpair, hi⟩ := List.mem_flatMap.1 hmem
    rcases List.mem_cons.1 hi with rfl | hi
    · exact ⟨last, jumpsTo_text.2 (.inl hpair)⟩
    · obtain rfl := List.mem_singleton.1 hi
      exact ⟨first, jumpsTo_text.2 (.inr hpair)⟩

theorem mem_pairs_of_jumpsTo {p : Program} {i j : Nat} (hopen : p.text[i]? = some '[')
    (h : JumpsTo p.text i j) : (i, j) ∈ p.pairs 0 := by
  rcases jumpsTo_text.1 h with h | h
  · exact h
  · obtain ⟨k, l, rfl, rfl, -, -, hclose, -⟩ := closes_of_mem_pairs h
    rw [Nat.zero_add, hclose] at hopen
    contradiction

/-! ## The rule for loops -/

theorem Closes.drop_eq {s : List Char} {j k : Nat} (h : Closes s j k) :
    s.drop j = '[' :: (s.take k).drop (j + 1) ++ ']' :: s.drop (k + 1) ∧
      (s.take (k + 1)).drop j = '[' :: (s.take k).drop (j + 1) ++ [']'] := by
  obtain ⟨hlt, hopen, hclose, -⟩ := h
  obtain ⟨hk, hclose⟩ := List.getElem?_eq_some_iff.1 hclose
  obtain ⟨hj, hopen⟩ := List.getElem?_eq_some_iff.1 hopen
  have htake : (s.take k).drop j = '[' :: (s.take k).drop (j + 1) := by
    rw [List.drop_eq_getElem_cons (by rw [List.length_take]; omega), List.getElem_take, hopen]
  have hle : j ≤ (s.take k).length := by
    rw [List.length_take]
    omega
  constructor
  · rw [← htake, ← hclose, ← List.drop_eq_getElem_cons hk, ← List.drop_append_of_le_length hle,
      List.take_append_drop]
  · rw [List.take_add_one, List.getElem?_eq_getElem hk, hclose, List.drop_append_of_le_length hle,
      htake]
    rfl

/-- The rule for loops stops at the bracket that belongs to the one it starts with. -/
theorem Closes.loop?_eq {s : List Char} {j k : Nat} (h : Closes s j k) :
    loop? (s.drop j) = some ((s.take (k + 1)).drop j) := by
  obtain ⟨hdrop, htake⟩ := h.drop_eq
  obtain ⟨body, hbody⟩ := sentence_iff_exists_text.1 h.2.2.2
  rw [hdrop, htake, ← hbody]
  exact loop?_append body _

/-- The table of a program has an entry exactly for its brackets and is its own inverse without a fixed
position. It sends an opening bracket to a later closing one with a program between them, so that two such
pairs lie one inside the other or apart, and the rule for loops takes the text from the one to the
other. -/
theorem jumpTable_loop_recognise {text : List Char} (htext : flaw? text = none) :
    (∀ i, (∃ j, JumpsTo text i j) ↔ text[i]? = some '[' ∨ text[i]? = some ']') ∧
      (∀ i j, JumpsTo text i j → JumpsTo text j i ∧ j ≠ i) ∧
      (∀ i j, text[i]? = some '[' → JumpsTo text i j →
        i < j ∧ text[j]? = some ']' ∧ ensureProgram ((text.take j).drop (i + 1)) = .ok () ∧
          Rule.loop.recognise (text.drop i) = .ok (some ((text.take (j + 1)).drop i))) ∧
      ∀ i j k l, text[i]? = some '[' → JumpsTo text i j → text[k]? = some '[' → JumpsTo text k l →
        i < k → l < j ∨ j < k := by
  obtain ⟨p, rfl⟩ := flaw?_eq_none_iff.1 htext
  have hcloses {i j : Nat} (h : (i, j) ∈ p.pairs 0) : Closes p.text i j := by
    obtain ⟨k, l, rfl, rfl, hkl⟩ := closes_of_mem_pairs h
    rwa [Nat.zero_add, Nat.zero_add]
  refine ⟨fun i => exists_jumpsTo_iff, fun i j h => ?_, fun i j hopen h => ?_,
    fun i j k l hi hij hk hkl hlt => ?_⟩
  · refine ⟨jumpsTo_text.2 (jumpsTo_text.1 h).symm, ?_⟩
    rcases jumpsTo_text.1 h with h | h
    · exact Nat.ne_of_gt (hcloses h).1
    · exact Nat.ne_of_lt (hcloses h).1
  · have hpair := hcloses (mem_pairs_of_jumpsTo hopen h)
    have ⟨hlt, _, hclose, hinside⟩ := hpair
    exact ⟨hlt, hclose, ensureProgram_eq_ok_iff.2 hinside, congrArg Except.ok hpair.loop?_eq⟩
  · exact nested_pairs (mem_pairs_of_jumpsTo hi hij) (mem_pairs_of_jumpsTo hk hkl) hlt

/-- Of three loops, two lie beside each other inside the third. -/
theorem jumpTable_loop_recognise_siblings :
    (∃ j, JumpsTo "+[[-]>[<]]".toList 1 j) ∧ JumpsTo "+[[-]>[<]]".toList 9 1 ∧
      Rule.loop.recognise ("+[[-]>[<]]".toList.drop 1) = .ok (some "[[-]>[<]]".toList) ∧
      (8 < 9 ∨ 9 < 6) := by
  obtain ⟨hkeys, hinverse, hopen, hnested⟩ :=
    jumpTable_loop_recognise (show flaw? "+[[-]>[<]]".toList = none by decide)
  have houter : JumpsTo "+[[-]>[<]]".toList 1 9 := show _ = _ by decide +kernel
  have hinner : JumpsTo "+[[-]>[<]]".toList 6 8 := show _ = _ by decide +kernel
  exact ⟨(hkeys 1).2 (.inl rfl), (hinverse 1 9 houter).1, (hopen 1 9 rfl houter).2.2.2,
    hnested 1 9 6 8 rfl houter rfl hinner (by decide)⟩

end Brainfuck
