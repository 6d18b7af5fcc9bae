import Brainfuck.Codegen.StandardRules
import Brainfuck.Machine.Operand
import Brainfuck.Proofs.Numerals

/-!
# Reading the operands of generated code

* `Convention.Names` : which registers the names of a convention stand for;
* `read_name`, `read_lowByte`, `read_hex`, `read_signedHex` : registers, low bytes and numbers;
* `read_cell`, `read_byteCell` : the cell at the pointer, with and without its width;
* `read_slot` : a slot of the output buffer.
-/

namespace Brainfuck

open Machine Codegen Text

/-- The registers that the names of a convention stand for. -/
structure Convention.Names (convention : Convention) (pointer cache : Register) : Prop where
  pointer : Register.ofName? convention.pointerRegister = some pointer
  cache : Register.ofLowByteName? convention.cacheRegister = some cache

theorem Convention.names_default (stackSize : Int) :
    ({ stackSize := stackSize } : Convention).Names .rbx .rcx := ⟨rfl, rfl⟩

namespace Machine

theorem Register.name_of_ofName? {s : List Char} {r : Register} (h : Register.ofName? s = some r) :
    s = r.name := by
  have := List.find?_some h
  exact (eq_of_beq this).symm

theorem Register.mem_lowByteNames {s : List Char} {r : Register}
    (h : Register.ofLowByteName? s = some r) : (s, r) ∈ Register.lowByteNames := by
  unfold Register.ofLowByteName? at h
  generalize Register.lowByteNames = names at h
  induction names with
  | nil => contradiction
  | cons entry names ih =>
    rw [List.lookup_cons] at h
    split at h
    · rename_i hs
      cases h
      rw [eq_of_beq hs]
      exact List.mem_cons_self
    · exact List.mem_cons_of_mem _ (ih h)

namespace Operand

theorem read_name (r : Register) : read none r.name = ⟨r.name, .register (.general r)⟩ := by
  simp [read, Form.read, RegisterRef.ofName?, Register.ofName?_name]

theorem read_lowByte {s : List Char} {r : Register} (h : Register.ofLowByteName? s = some r) :
    read none s = ⟨s, .lowByte r⟩ := by
  have hs := Register.mem_lowByteNames h
  simp only [Register.lowByteNames, List.mem_cons, Prod.mk.injEq, List.not_mem_nil, or_false] at hs
  rcases hs with ⟨rfl, rfl⟩ | ⟨rfl, rfl⟩ | ⟨rfl, rfl⟩ | ⟨rfl, rfl⟩ | ⟨rfl, rfl⟩ | ⟨rfl, rfl⟩ <;> rfl

theorem ofName?_of_head {s : List Char} (h : s.head? = some '0' ∨ s.head? = some '-') :
    RegisterRef.ofName? none s = none := by
  have hname : Register.ofName? s = none := by
    rw [Register.ofName?, List.find?_eq_none]
    intro r _ hr
    have hheads : ¬(r.name.head? = some '0' ∨ r.name.head? = some '-') := by cases r <;> decide
    rw [eq_of_beq hr] at hheads
    exact hheads h
  simp [RegisterRef.ofName?, hname]

theorem ofLowByteName?_of_head {s : List Char} (h : s.head? = some '0' ∨ s.head? = some '-') :
    Register.ofLowByteName? s = none := by
  cases hname : Register.ofLowByteName? s with
  | none => rfl
  | some r =>
    have hheads : ∀ entry ∈ Register.lowByteNames,
        ¬(entry.1.head? = some '0' ∨ entry.1.head? = some '-') := by decide
    exact absurd h (hheads _ (Register.mem_lowByteNames hname))

theorem ofName?_hex (n : Nat) : RegisterRef.ofName? none (hex n) = none :=
  ofName?_of_head (.inl rfl)

theorem read_number {s : List Char} {value : Int} (h : s.head? = some '0' ∨ s.head? = some '-')
    (hbracket : '[' ∉ s) (hvalue : literal? s = some value) : read none s = ⟨s, .number value⟩ := by
  simp [read, Form.read, ofName?_of_head h, ofLowByteName?_of_head h, hbracket, hvalue]

theorem bracket_not_mem_hex (n : Nat) : '[' ∉ hex n :=
  fun h => forall_mem_hex (P := (· ≠ '[')) (by decide) n _ h rfl

theorem read_hex (n : Nat) : read none (hex n) = ⟨hex n, .number n⟩ :=
  read_number (.inl rfl) (bracket_not_mem_hex n) (literal?_hex n)

theorem read_signedHex (n : Int) : read none (signedHex n) = ⟨signedHex n, .number n⟩ := by
  refine read_number ?_ ?_ (literal?_signedHex n)
  · cases n with
    | ofNat n => exact .inl rfl
    | negSucc n => exact .inr rfl
  · cases n with
    | ofNat n => exact bracket_not_mem_hex n
    | negSucc n => exact List.not_mem_cons_of_ne_of_not_mem (by decide) (bracket_not_mem_hex (n + 1))

theorem read_cell {s : List Char} {r : Register} (h : Register.ofName? s = some r) :
    read none (cell s) = ⟨cell s, .memory (.sum [(1, .register (.general r))])⟩ := by
  rw [Register.name_of_ofName? h]
  cases r <;> rfl

theorem read_byteCell {s : List Char} {r : Register} (h : Register.ofName? s = some r) :
    read none (byteCell s) = ⟨byteCell s, .memory (.sum [(1, .register (.general r))])⟩ := by
  rw [Register.name_of_ofName? h]
  cases r <;> rfl

theorem isByteWide_byteCell (s : List Char) (form : Form) :
    isByteWide ⟨byteCell s, form⟩ = true := by
  have : "byte".toList.isPrefixOf (byteCell s) = true := rfl
  rw [isByteWide, this, Bool.or_true, Bool.true_or]

end Operand

/-! ## The slots of the output buffer -/

theorem splitTermsFrom_of_plain {s : List Char} (h : ∀ c ∈ s, c ≠ '+' ∧ c ≠ '-') (sign : Int)
    (term : List Char) : splitTermsFrom sign term s = finishTerm sign (s.reverse ++ term) := by
  induction s generalizing term with
  | nil => rfl
  | cons c s ih =>
    obtain ⟨hplus, hminus⟩ := h c List.mem_cons_self
    rw [splitTermsFrom.eq_4 _ _ _ _ (fun e => hplus e) (fun e => hminus e),
      ih (fun d hd => h d (List.mem_cons_of_mem _ hd)), List.reverse_cons, List.append_assoc]
    rfl

theorem splitTerms_slot (n : Nat) :
    splitTerms ("rsp+".toList ++ hex n) = [(1, "rsp".toList), (1, hex n)] := by
  have hplain := forall_mem_hex (P := fun c => c ≠ '+' ∧ c ≠ '-') (by decide) n
  have hsplit : splitTerms ("rsp+".toList ++ hex n) =
      (1, "rsp".toList) :: splitTermsFrom 1 [] (hex n) := rfl
  rw [hsplit, splitTermsFrom_of_plain hplain, List.append_nil]
  simp [finishTerm, hex]

/-- Reading an address in brackets is reading its terms, if it has no blanks and no letter of which
only the word for the width is made. -/
theorem Address.read_cell {s : List Char} (h : ∀ c ∈ s, c ≠ 'y' ∧ isBlank c = false)
    {terms : List (Int × Term)} (hterms : readTerms none (splitTerms s) = .ok terms) :
    read none (cell s) = .sum terms := by
  have hmem : ∀ c ∈ cell s, c ≠ 'y' ∧ isBlank c = false := by
    intro c hc
    simp only [cell, List.cons_append, List.mem_cons, List.mem_append, List.not_mem_nil,
      or_false] at hc
    rcases hc with rfl | hc | rfl
    · decide
    · exact h c hc
    · decide
  have htext : trim (eraseFirst "byte".toList (cell s)) = cell s := by
    rw [eraseFirst_of_not_mem (c := 'y') (by decide) (fun h => (hmem _ h).1 rfl),
      trim_of_ends (fun c hc => (hmem c (List.mem_of_mem_head? hc)).2)
        (fun c hc => (hmem c (List.mem_of_getLast? hc)).2)]
  have hinside : (((cell s).drop 1).dropLast.filter (· ≠ ' ')) = s := by
    rw [cell, List.cons_append, List.drop_succ_cons, List.drop_zero, List.dropLast_concat,
      List.filter_eq_self]
    intro c hc
    have := (h c hc).2
    simp only [decide_eq_true_eq]
    rintro rfl
    exact absurd this (by decide)
  rw [read, htext, hinside, hterms, if_pos ⟨rfl, by simp [cell, List.getLast?_cons]⟩]

theorem Address.read_slot (n : Nat) :
    read none (cell ("rsp+".toList ++ hex n)) =
      .sum [(1, .register (.general .rsp)), (1, .number n)] := by
  refine read_cell ?_ ?_
  · exact List.forall_mem_append.2 ⟨forall_mem_of_all (by decide), forall_mem_hex (by decide) n⟩
  · have hrsp : Term.read? none "rsp".toList = some (.register (.general .rsp)) := rfl
    have hnumber : Term.read? none (hex n) = some (.number n) := by
      rw [Term.read?, Operand.ofName?_hex, literal?_hex]
      rfl
    rw [splitTerms_slot, readTerms, hrsp, readTerms, hnumber]
    rfl

theorem Operand.read_slot (n : Nat) :
    read none (cell ("rsp+".toList ++ hex n)) =
      ⟨cell ("rsp+".toList ++ hex n),
        .memory (.sum [(1, .register (.general .rsp)), (1, .number n)])⟩ := by
  have hform : Form.read none (cell ("rsp+".toList ++ hex n)) =
      .memory (Address.read none (cell ("rsp+".toList ++ hex n))) := by
    have hname : RegisterRef.ofName? none (cell ("rsp+".toList ++ hex n)) = none := rfl
    have hlow : Register.ofLowByteName? (cell ("rsp+".toList ++ hex n)) = none := rfl
    rw [Form.read, hname, hlow]
    simp [cell]
  rw [read, hform, Address.read_slot]

end Machine

end Brainfuck
