import Brainfuck.Proofs.Text
import Brainfuck.Text.Numeral

/-!
# Written numbers

* `hexDigits` : the characters of which numerals consist (`mem_hexDigits_of_toDigits`);
* `digitsFrom?_toDigits` : digits are read back, in any base up to sixteen;
* `toDigits_injective` : a number is known by its digits;
* `literal?_hex`, `literal?_signedHex` : a number written in base sixteen is read back.
-/

namespace Brainfuck.Text

def hexDigits : List Char := "0123456789abcdef".toList

theorem digitChar_mem_hexDigits {d : Nat} (h : d < 16) : Nat.digitChar d ∈ hexDigits := by
  have : ∀ d < 16, Nat.digitChar d ∈ hexDigits := by decide
  exact this d h

theorem digitIn?_digitChar {base d : Nat} (hb : base ≤ 16) (h : d < base) :
    digitIn? base (Nat.digitChar d) = some d := by
  have : ∀ d < 16, hexDigitValue? (Nat.digitChar d) = some d := by decide
  rw [digitIn?, this d (by omega), Option.filter_some, if_pos (by simpa using h)]

theorem mem_hexDigits_of_toDigits {base n : Nat} (hb : 1 < base) (hb' : base ≤ 16) {c : Char}
    (h : c ∈ Nat.toDigits base n) : c ∈ hexDigits := by
  induction n using Nat.strongRecOn with
  | ind n ih =>
    rw [Nat.toDigits_eq_if hb] at h
    split at h
    · obtain rfl := List.mem_singleton.1 h
      exact digitChar_mem_hexDigits (by omega)
    · rcases List.mem_append.1 h with h | h
      · exact ih (n / base) (Nat.div_lt_self (by omega) hb) h
      · obtain rfl := List.mem_singleton.1 h
        exact digitChar_mem_hexDigits (Nat.lt_of_lt_of_le (Nat.mod_lt n (by omega)) hb')

theorem ne_underscore {c : Char} (h : c ∈ hexDigits) : c ≠ '_' := by
  rintro rfl
  exact absurd h (by decide)

theorem digitsFrom?_cons {base value : Nat} {c : Char} (hc : c ≠ '_') (rest : List Char) :
    digitsFrom? base value (c :: rest) =
      (digitIn? base c).bind fun d => digitsFrom? base (value * base + d) rest := by
  rw [digitsFrom?.eq_3 base value c rest (fun _ _ h => absurd h hc)]
  rfl

theorem digitsFrom?_append {base : Nat} {xs : List Char} (h : ∀ c ∈ xs, c ≠ '_') (value : Nat)
    (ys : List Char) :
    digitsFrom? base value (xs ++ ys) =
      (digitsFrom? base value xs).bind fun v => digitsFrom? base v ys := by
  induction xs generalizing value with
  | nil => simp [digitsFrom?]
  | cons c xs ih =>
    rw [List.cons_append, digitsFrom?_cons (h c (by simp)), digitsFrom?_cons (h c (by simp)),
      Option.bind_assoc]
    congr 1
    funext d
    exact ih (fun c hc => h c (by simp [hc])) _

theorem digitsFrom?_toDigits {base : Nat} (hb : 1 < base) (hb' : base ≤ 16) (n : Nat) :
    digitsFrom? base 0 (Nat.toDigits base n) = some n := by
  induction n using Nat.strongRecOn with
  | ind n ih =>
    have last : ∀ value d, d < base →
        digitsFrom? base value [Nat.digitChar d] = some (value * base + d) := by
      intro value d hd
      rw [digitsFrom?_cons (ne_underscore (digitChar_mem_hexDigits (by omega))),
        digitIn?_digitChar hb' hd]
      rfl
    by_cases hn : n < base
    · rw [Nat.toDigits_of_lt_base hn, last 0 n hn]
      simp
    · have hmod := Nat.mod_lt n (show 0 < base by omega)
      rw [Nat.toDigits_of_base_le hb (by omega),
        digitsFrom?_append (fun c hc => ne_underscore (mem_hexDigits_of_toDigits hb hb' hc)),
        ih (n / base) (Nat.div_lt_self (by omega) hb), Option.bind_some, last _ _ hmod,
        Nat.mul_comm, Nat.div_add_mod]

theorem toDigits_injective {base : Nat} (hb : 1 < base) (hb' : base ≤ 16) {m n : Nat}
    (h : Nat.toDigits base m = Nat.toDigits base n) : m = n := by
  have hm := digitsFrom?_toDigits hb hb' m
  rw [h, digitsFrom?_toDigits hb hb' n] at hm
  exact (Option.some.inj hm).symm

theorem digits?_eq {base : Nat} {c : Char} (hc : c ≠ '_') (rest : List Char) :
    digits? base (c :: rest) = digitsFrom? base 0 (c :: rest) := by
  rw [digits?, digitsFrom?_cons hc]
  simp

/-! ## Numbers in base sixteen -/

theorem mem_hex {n : Nat} {c : Char} (h : c ∈ hex n) : c = 'x' ∨ c ∈ hexDigits := by
  rcases List.mem_cons.1 h with rfl | h
  · exact .inr (by decide)
  rcases List.mem_cons.1 h with rfl | h
  · exact .inl rfl
  · exact .inr (mem_hexDigits_of_toDigits (by decide) (by decide) h)

theorem forall_mem_hex {P : Char → Prop} [DecidablePred P]
    (h : ('x' :: hexDigits).all (fun c => decide (P c)) = true) (n : Nat) : ∀ c ∈ hex n, P c := by
  intro c hc
  refine forall_mem_of_all h c ?_
  rcases mem_hex hc with rfl | hc
  · exact List.mem_cons_self
  · exact List.mem_cons_of_mem _ hc

theorem numeralBody_of_plain {s : List Char} (h : ∀ c ∈ s, c.toNat < 0x7f ∧ isMargin c = false) :
    numeralBody s = s := by
  have hmap : s.map plainNumeralChar = s := by
    rw [List.map_congr_left (g := id) (fun c hc => by simp [plainNumeralChar, (h c hc).1]),
      List.map_id]
  rw [numeralBody, hmap, dropWhile_of_head (fun c hc => (h c (List.mem_of_mem_head? hc)).2),
    dropEndWhile_of_last (fun c hc => (h c (List.mem_of_getLast? hc)).2)]

theorem magnitude?_hex (n : Nat) : magnitude? (hex n) = some n := by
  have hread := digitsFrom?_toDigits (show 1 < 16 by decide) (Nat.le_refl 16) n
  have hmem := fun c => mem_hexDigits_of_toDigits (n := n) (c := c) (show 1 < 16 by decide)
    (Nat.le_refl 16)
  show markedDigits? 16 (Nat.toDigits 16 n) = some n
  cases hs : Nat.toDigits 16 n with
  | nil => exact absurd hs Nat.toDigits_ne_nil
  | cons c rest =>
    rw [hs] at hread hmem
    have hc := ne_underscore (hmem c (by simp))
    rw [← hread, ← digits?_eq hc]
    unfold markedDigits?
    split
    · rename_i h
      exact absurd (List.cons.inj h).1 hc
    · rfl

/-- A number in base sixteen is read back. -/
theorem literal?_hex (n : Nat) : literal? (hex n) = some (n : Int) := by
  have hsigned : signed? magnitude? (hex n) = (magnitude? (hex n)).map Int.ofNat := rfl
  rw [literal?, numeralBody_of_plain (forall_mem_hex (by decide) n), hsigned, magnitude?_hex]
  rfl

theorem literal?_signedHex (n : Int) : literal? (signedHex n) = some n := by
  cases n with
  | ofNat n => exact literal?_hex n
  | negSucc n =>
    have hplain : ∀ c ∈ '-' :: hex (n + 1), c.toNat < 0x7f ∧ isMargin c = false :=
      List.forall_mem_cons.2 ⟨by decide, forall_mem_hex (by decide) (n + 1)⟩
    rw [signedHex, literal?, numeralBody_of_plain hplain, signed?, magnitude?_hex]
    rfl

end Brainfuck.Text
