import Brainfuck.Text.Basic
import Mathlib.Data.List.Infix

/-!
# Replacing a part of a text

* `Across` : an occurrence of the part that runs from one text into the next;
* `substitute_append` : without one, two texts are treated one by one;
* `substitute_self_append` : an occurrence in front is replaced;
* `infix_substitute`, `substitute_of_absent` : what the part makes of a text that has it, and of one
  that lacks it;
* `prefix_of_prefix_substitute`, `suffix_of_suffix_substitute` : a text that has nothing in common with the
  value begins or ends the result only where it begins or ends the text itself.
-/

namespace Brainfuck.Text

variable {part value s t : List Char}

theorem occursIn_iff : occursIn part s = true ↔ part <:+: s := by
  induction s with
  | nil => simp [occursIn]
  | cons c s ih =>
    rw [occursIn, Bool.or_eq_true, List.isPrefixOf_iff_prefix, ih, List.infix_cons_iff]

/-! ## Texts one after the other -/

/-- An occurrence of a part that begins in the first of two texts and ends in the second. -/
def Across (part s t : List Char) : Prop :=
  ∃ front back, front ≠ [] ∧ back ≠ [] ∧ part = front ++ back ∧ front <:+ s ∧ back <+: t

theorem Across.cons {c : Char} (h : Across part s t) : Across part (c :: s) t := by
  obtain ⟨front, back, hfront, hback, hpart, hs, ht⟩ := h
  exact ⟨front, back, hfront, hback, hpart, hs.trans (List.suffix_cons c s), ht⟩

theorem Across.head_mem {c : Char} (h : Across (c :: part) s t) : c ∈ s := by
  obtain ⟨front, back, hfront, -, hpart, hs, -⟩ := h
  obtain ⟨d, front, rfl⟩ := List.exists_cons_of_ne_nil hfront
  obtain rfl : c = d := (List.cons.inj hpart).1
  exact hs.mem List.mem_cons_self

theorem Across.mem {c : Char} (h : Across part s (c :: t)) : c ∈ part := by
  obtain ⟨front, back, -, hback, rfl, -, ht⟩ := h
  obtain ⟨d, back, rfl⟩ := List.exists_cons_of_ne_nil hback
  obtain rfl : d = c := (List.cons_prefix_cons.1 ht).1
  simp

theorem prefix_append_iff (hs : s ≠ []) (h : ¬Across part s t) : part <+: s ++ t ↔ part <+: s := by
  refine ⟨fun hpart => ?_, List.prefix_append_of_prefix⟩
  rcases List.prefix_or_prefix_of_prefix hpart (List.prefix_append s t) with hle | ⟨back, rfl⟩
  · exact hle
  · by_cases hback : back = []
    · rw [hback, List.append_nil]
    · have ht : back <+: t := (List.prefix_append_right_inj s).1 hpart
      exact absurd ⟨s, back, hs, hback, rfl, List.suffix_rfl, ht⟩ h

theorem substituteFrom_append (h : ¬Across part s t) {skip : Nat} (hskip : skip ≤ s.length) :
    substituteFrom part value skip (s ++ t) =
      substituteFrom part value skip s ++ substitute part value t := by
  induction s generalizing skip with
  | nil =>
    obtain rfl : skip = 0 := Nat.le_zero.1 hskip
    rfl
  | cons c s ih =>
    have hrest : ¬Across part s t := fun hacross => h hacross.cons
    cases skip with
    | succ skip => exact ih hrest (Nat.le_of_succ_le_succ hskip)
    | zero =>
      have hprefix : part.isPrefixOf (c :: (s ++ t)) = part.isPrefixOf (c :: s) := by
        rw [Bool.eq_iff_iff, List.isPrefixOf_iff_prefix, List.isPrefixOf_iff_prefix]
        exact prefix_append_iff (List.cons_ne_nil c s) h
      rw [List.cons_append, substituteFrom, substituteFrom, hprefix]
      split
      · rename_i hpart
        have hlength : part.length - 1 ≤ s.length := by
          have hle := (List.isPrefixOf_iff_prefix.1 hpart).length_le
          rw [List.length_cons] at hle
          omega
        rw [ih hrest hlength, List.append_assoc]
      · rw [ih hrest (Nat.zero_le _), List.cons_append]

theorem substitute_append (h : ¬Across part s t) :
    substitute part value (s ++ t) = substitute part value s ++ substitute part value t :=
  substituteFrom_append h (Nat.zero_le _)

/-- The characters of an occurrence are passed over. -/
theorem substituteFrom_length (part value s t : List Char) :
    substituteFrom part value s.length (s ++ t) = substitute part value t := by
  induction s with
  | nil => rfl
  | cons c s ih => exact ih

theorem substitute_self_append (hpart : part ≠ []) (value t : List Char) :
    substitute part value (part ++ t) = value ++ substitute part value t := by
  have hprefix : part.isPrefixOf (part ++ t) = true :=
    List.isPrefixOf_iff_prefix.2 (List.prefix_append part t)
  obtain ⟨c, part, rfl⟩ := List.exists_cons_of_ne_nil hpart
  rw [substitute, List.cons_append, substituteFrom, ← List.cons_append, if_pos hprefix]
  exact congrArg (value ++ ·) (substituteFrom_length _ value part t)

/-! ## Texts with the part and without -/

theorem substitute_cons {c : Char} (h : ¬part <+: c :: s) :
    substitute part value (c :: s) = c :: substitute part value s := by
  rw [substitute, substituteFrom, if_neg fun hpart => h (List.isPrefixOf_iff_prefix.1 hpart)]
  rfl

theorem substitute_of_absent (h : ¬part <:+: s) : substitute part value s = s := by
  induction s with
  | nil => rfl
  | cons c s ih =>
    rw [List.infix_cons_iff, not_or] at h
    rw [substitute_cons h.1, ih h.2]

theorem substitute_of_not_mem {c : Char} (h : c ∉ s) (part value : List Char) :
    substitute (c :: part) value s = s :=
  substitute_of_absent fun hpart => h (hpart.mem List.mem_cons_self)

theorem infix_substitute (hpart : part ≠ []) (h : part <:+: s) : value <:+: substitute part value s := by
  induction s with
  | nil => exact absurd (List.infix_nil.1 h) hpart
  | cons c s ih =>
    rw [substitute, substituteFrom]
    split
    · exact (List.prefix_append value _).isInfix
    · rename_i hno
      rcases List.infix_cons_iff.1 h with hprefix | hrest
      · exact absurd (List.isPrefixOf_iff_prefix.2 hprefix) hno
      · exact List.infix_cons (ih hrest)

/-- Where nothing of the value is seen, nothing was replaced. -/
theorem substitute_eq_self_of_disjoint (hpart : part ≠ []) (hvalue : value ≠ [])
    (h : value.Disjoint (substitute part value s)) : substitute part value s = s := by
  refine substitute_of_absent fun hinfix => ?_
  obtain ⟨c, value, rfl⟩ := List.exists_cons_of_ne_nil hvalue
  have hmem : c ∈ substitute part (c :: value) s := (infix_substitute hpart hinfix).mem List.mem_cons_self
  exact h List.mem_cons_self hmem

/-! ## The ends of the result -/

theorem prefix_of_prefix_substitute {w : List Char} (hvalue : value ≠ []) (hw : value.Disjoint w)
    (h : w <+: substitute part value s) : w <+: s := by
  induction s generalizing w with
  | nil => exact h
  | cons c s ih =>
    rw [substitute, substituteFrom] at h
    split at h
    · obtain ⟨d, value, rfl⟩ := List.exists_cons_of_ne_nil hvalue
      rcases List.prefix_cons_iff.1 h with rfl | ⟨w, rfl, -⟩
      · exact List.nil_prefix
      · exact (hw List.mem_cons_self List.mem_cons_self).elim
    · rcases List.prefix_cons_iff.1 h with rfl | ⟨w, rfl, hrest⟩
      · exact List.nil_prefix
      · exact List.cons_prefix_cons.2 ⟨rfl, ih (List.disjoint_of_disjoint_cons_right hw) hrest⟩

theorem suffix_of_suffix_substituteFrom {w : List Char} (hpart : part ≠ []) (hvalue : value ≠ [])
    (hw : value.Disjoint w) {skip : Nat} (h : w <:+ substituteFrom part value skip s) : w <:+ s := by
  induction s generalizing skip with
  | nil => exact h
  | cons c s ih =>
    cases skip with
    | succ skip => exact (ih h).trans (List.suffix_cons c s)
    | zero =>
      rw [substituteFrom] at h
      split at h
      · -- Either all of `w` comes behind the value, or `w` has the last character of the value.
        rcases List.suffix_or_suffix_of_suffix h (List.suffix_append _ _) with hrest | ⟨front, rfl⟩
        · exact (ih hrest).trans (List.suffix_cons c s)
        · have hfront : front <:+ value := (List.suffix_append_self_iff).1 h
          obtain rfl : front = [] := List.eq_nil_iff_forall_not_mem.2 fun d hd =>
            hw (hfront.mem hd) (List.mem_append_left _ hd)
          exact (ih List.suffix_rfl).trans (List.suffix_cons c s)
      · rcases List.suffix_cons_iff.1 h with rfl | hrest
        · have hself : substitute part value s = s :=
            substitute_eq_self_of_disjoint hpart hvalue (List.disjoint_of_disjoint_cons_right hw)
          exact ⟨[], congrArg (c :: ·) hself⟩
        · exact (ih hrest).trans (List.suffix_cons c s)

theorem suffix_of_suffix_substitute {w : List Char} (hpart : part ≠ []) (hvalue : value ≠ [])
    (hw : value.Disjoint w) (h : w <:+ substitute part value s) : w <:+ s :=
  suffix_of_suffix_substituteFrom hpart hvalue hw h

end Brainfuck.Text
