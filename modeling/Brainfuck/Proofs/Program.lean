import Brainfuck.Codegen.Recogniser
import Brainfuck.Interpreter.Basic
import Brainfuck.Source

/-!
# Program trees

* `Command` : the operators that are no brackets;
* `Program` : a program as a tree in which a loop holds its body, with its text (`Program.text`), which
  is that of no other tree (`Program.text_injective`);
* `flaw?_eq_none_iff` : the texts without a flaw are the texts of trees;
* `bracketPairsFrom_append`, `partner?_pairs` : the bracket pairs of a tree's text are its loops;
* `throughClosing?_append` : the search for the end of a loop passes over a tree's text.
-/

namespace Brainfuck

/-- The operators that are no brackets. -/
inductive Command where
  | right
  | left
  | increment
  | decrement
  | output
  | input
  deriving DecidableEq

def Command.operator : Command → Operator
  | right => .right
  | left => .left
  | increment => .increment
  | decrement => .decrement
  | output => .output
  | input => .input

def Command.char (c : Command) : Char := c.operator.char

theorem Command.char_injective {c d : Command} (h : c.char = d.char) : c = d := by
  revert h
  cases c <;> cases d <;> decide

@[simp]
theorem Command.ofChar?_char (c : Command) : Operator.ofChar? c.char = some c.operator :=
  Operator.ofChar?_char c.operator

/-- A program as a tree. -/
inductive Program where
  | done
  | command (first : Command) (rest : Program)
  | loop (body rest : Program)

namespace Program

def text : Program → List Char
  | done => []
  | command c rest => c.char :: rest.text
  | loop body rest => '[' :: body.text ++ ']' :: rest.text

abbrev length (p : Program) : Nat := p.text.length

@[simp]
theorem length_command (c : Command) (rest : Program) :
    (command c rest).length = rest.length + 1 := rfl

@[simp]
theorem length_loop (body rest : Program) :
    (loop body rest).length = body.length + rest.length + 2 := by
  simp only [length, text, List.length_append, List.length_cons]
  omega

/-- Commands in front of a program. -/
def after (commands : List Command) (rest : Program) : Program :=
  commands.foldr .command rest

@[simp]
theorem after_nil (rest : Program) : after [] rest = rest := rfl

@[simp]
theorem after_cons (c : Command) (commands : List Command) (rest : Program) :
    after (c :: commands) rest = command c (after commands rest) := rfl

@[simp]
theorem after_append (xs ys : List Command) (rest : Program) :
    after (xs ++ ys) rest = after xs (after ys rest) := by
  simp [after]

@[simp]
theorem text_after (commands : List Command) (rest : Program) :
    (after commands rest).text = commands.map Command.char ++ rest.text := by
  induction commands with
  | nil => rfl
  | cons c commands ih => simp [text, ih]

@[simp]
theorem length_after (commands : List Command) (rest : Program) :
    (after commands rest).length = commands.length + rest.length := by
  rw [length, text_after, List.length_append, List.length_map]

end Program

theorem Program.forall_mem_text {P : Char → Prop} (p : Program)
    (h : ∀ c ∈ "><+-.,[]".toList, P c) : ∀ c ∈ p.text, P c := by
  have hcommand : ∀ c : Command, P c.char := fun c => h c.char (by cases c <;> decide)
  induction p with
  | done => simp [text]
  | command c rest ih => simpa [text, hcommand c] using ih
  | loop body rest ihb ih =>
    intro c hc
    simp only [text, List.cons_append, List.mem_cons, List.mem_append] at hc
    rcases hc with rfl | hc | rfl | hc
    · exact h _ (by decide)
    · exact ihb c hc
    · exact h _ (by decide)
    · exact ih c hc

/-- A program ends where a closing bracket stands that it does not open, so its text is read in one
way, whatever follows. -/
theorem Program.text_append_inj {p q : Program} {x y : List Char} (hx : ∀ c ∈ x.head?, c = ']')
    (hy : ∀ c ∈ y.head?, c = ']') (h : p.text ++ x = q.text ++ y) : p = q ∧ x = y := by
  have hcommand : ∀ c : Command, c.char ≠ '[' ∧ c.char ≠ ']' := by
    intro c
    cases c <;> decide
  induction p generalizing q x y with
  | done =>
    cases q with
    | done => exact ⟨rfl, h⟩
    | command c q =>
      rw [text, List.nil_append] at h
      rw [h] at hx
      exact absurd (hx _ rfl) (hcommand c).2
    | loop body q =>
      rw [text, List.nil_append] at h
      rw [h] at hx
      exact absurd (hx _ rfl) (by decide)
  | command c p ih =>
    cases q with
    | done =>
      rw [text, text, List.nil_append] at h
      rw [← h] at hy
      exact absurd (hy _ rfl) (hcommand c).2
    | command d q =>
      obtain ⟨hc, hrest⟩ := List.cons.inj h
      obtain ⟨rfl, rfl⟩ := ih hx hy hrest
      rw [Command.char_injective hc]
      exact ⟨rfl, rfl⟩
    | loop body q => exact absurd (List.cons.inj h).1 (hcommand c).1
  | loop body p ihb ih =>
    cases q with
    | done =>
      rw [text, text, List.nil_append] at h
      rw [← h] at hy
      exact absurd (hy _ rfl) (by decide)
    | command c q => exact absurd (List.cons.inj h).1.symm (hcommand c).1
    | loop body' q =>
      rw [text, text, List.append_assoc, List.append_assoc] at h
      obtain ⟨rfl, hrest⟩ := ihb (by simp) (by simp) (List.cons.inj h).2
      obtain ⟨rfl, rfl⟩ := ih hx hy (List.cons.inj hrest).2
      exact ⟨rfl, rfl⟩

theorem Program.text_injective {p q : Program} (h : p.text = q.text) : p = q :=
  (text_append_inj (x := []) (y := []) (by simp) (by simp) (by simpa using h)).1

/-! ## Texts without a flaw -/

theorem char_cases (c : Char) :
    (∃ d : Command, c = d.char) ∨ c = '[' ∨ c = ']' ∨ Operator.ofChar? c = none := by
  unfold Operator.ofChar?
  split
  · exact .inl ⟨.right, rfl⟩
  · exact .inl ⟨.left, rfl⟩
  · exact .inl ⟨.increment, rfl⟩
  · exact .inl ⟨.decrement, rfl⟩
  · exact .inl ⟨.output, rfl⟩
  · exact .inl ⟨.input, rfl⟩
  · exact .inr (.inl rfl)
  · exact .inr (.inr (.inl rfl))
  · exact .inr (.inr (.inr rfl))

theorem flawFrom?_command (d : Command) (i : Nat) (opened : List Nat) (s : List Char) :
    flawFrom? i opened (d.char :: s) = flawFrom? (i + 1) opened s := by
  cases d <;> cases opened <;> rfl

theorem flawFrom?_open (i : Nat) (opened : List Nat) (s : List Char) :
    flawFrom? i opened ('[' :: s) = flawFrom? (i + 1) (i :: opened) s := by
  cases opened <;> rfl

theorem flawFrom?_close (i innermost : Nat) (outer : List Nat) (s : List Char) :
    flawFrom? i (innermost :: outer) (']' :: s) = flawFrom? (i + 1) outer s := rfl

/-- The brackets of a program close inside it, so behind its text the same ones are open. -/
theorem flawFrom?_append (p : Program) (i : Nat) (opened : List Nat) (rest : List Char) :
    flawFrom? i opened (p.text ++ rest) = flawFrom? (i + p.length) opened rest := by
  induction p generalizing i opened rest with
  | done => rfl
  | command c p ih =>
    rw [Program.text, List.cons_append, flawFrom?_command, ih, Program.length_command]
    congr 1
    omega
  | loop body p ihb ih =>
    rw [Program.text, List.cons_append, List.cons_append, List.append_assoc, flawFrom?_open, ihb,
      List.cons_append, flawFrom?_close, ih, Program.length_loop]
    congr 1
    omega

/-- A text without a flaw behind open brackets is a program for each of them, up to the bracket that
closes it, and a last one. -/
theorem exists_programs_of_flawFrom? {i : Nat} {opened : List Nat} {s : List Char}
    (h : flawFrom? i opened s = none) :
    ∃ (first : Program) (others : List Program), others.length = opened.length ∧
      s = first.text ++ others.flatMap (fun p => ']' :: p.text) := by
  induction s generalizing i opened with
  | nil =>
    cases opened with
    | nil => exact ⟨.done, [], rfl, rfl⟩
    | cons innermost outer => contradiction
  | cons c s ih =>
    rcases char_cases c with ⟨d, rfl⟩ | rfl | rfl | hc
    · rw [flawFrom?_command] at h
      obtain ⟨first, others, hl, hs⟩ := ih h
      exact ⟨.command d first, others, hl, by rw [hs, Program.text, List.cons_append]⟩
    · rw [flawFrom?_open] at h
      obtain ⟨first, others, hl, hs⟩ := ih h
      -- the bracket just opened closes behind `first`
      obtain ⟨second, others, rfl⟩ := List.exists_cons_of_length_eq_add_one hl
      exact ⟨.loop first second, others, Nat.succ.inj hl, by rw [hs]; simp [Program.text]⟩
    · cases opened with
      | nil => contradiction
      | cons innermost outer =>
        rw [flawFrom?_close] at h
        obtain ⟨first, others, hl, hs⟩ := ih h
        exact ⟨.done, first :: others, by rw [List.length_cons, hl, List.length_cons],
          by rw [hs]; rfl⟩
    · cases opened <;> simp [flawFrom?, hc] at h

/-- The texts without a flaw are the texts of programs. -/
theorem flaw?_eq_none_iff {s : List Char} : flaw? s = none ↔ ∃ p : Program, p.text = s := by
  constructor
  · intro h
    obtain ⟨first, others, hl, hs⟩ := exists_programs_of_flawFrom? h
    obtain rfl := List.length_eq_zero_iff.1 hl
    exact ⟨first, by simpa using hs.symm⟩
  · rintro ⟨p, rfl⟩
    have h := flawFrom?_append p 0 [] []
    rwa [List.append_nil] at h

theorem ensureProgram_text (p : Program) : ensureProgram p.text = .ok () := by
  rw [ensureProgram, flaw?_eq_none_iff.2 ⟨p, rfl⟩]

/-! ## Bracket pairs -/

/-- The loops of a program that starts at position `i`, each as the pair of its brackets, in the
order in which they close. -/
def Program.pairs : Program → Nat → List (Nat × Nat)
  | done, _ => []
  | command _ rest, i => rest.pairs (i + 1)
  | loop body rest, i =>
    body.pairs (i + 1) ++ (i, i + body.length + 1) :: rest.pairs (i + body.length + 2)

theorem Program.pairs_after (commands : List Command) (rest : Program) (i : Nat) :
    (after commands rest).pairs i = rest.pairs (i + commands.length) := by
  induction commands generalizing i with
  | nil => rfl
  | cons c commands ih =>
    rw [after_cons, pairs, ih, List.length_cons]
    congr 1
    omega

theorem bracketPairsFrom_append (p : Program) (i : Nat) (opened : List Nat) (rest : List Char) :
    bracketPairsFrom i opened (p.text ++ rest) =
      p.pairs i ++ bracketPairsFrom (i + p.length) opened rest := by
  induction p generalizing i opened rest with
  | done => rfl
  | command c p ih =>
    have h : bracketPairsFrom i opened (c.char :: (p.text ++ rest)) =
        bracketPairsFrom (i + 1) opened (p.text ++ rest) := by
      cases c <;> cases opened <;> rfl
    rw [Program.text, List.cons_append, h, ih, Program.length_command, Program.pairs]
    congr 2
    omega
  | loop body p ihb ih =>
    have hopen : ∀ s, bracketPairsFrom i opened ('[' :: s) =
        bracketPairsFrom (i + 1) (i :: opened) s := fun _ => by cases opened <;> rfl
    have hclose : ∀ j s, bracketPairsFrom j (i :: opened) (']' :: s) =
        (i, j) :: bracketPairsFrom (j + 1) opened s := fun _ _ => rfl
    rw [Program.text, List.cons_append, List.cons_append, List.append_assoc, hopen, ihb,
      List.cons_append, hclose, ih, Program.length_loop, Program.pairs,
      show i + 1 + body.length = i + body.length + 1 by omega,
      show i + body.length + 1 + 1 = i + body.length + 2 by omega,
      show i + body.length + 2 + p.length = i + (body.length + p.length + 2) by omega,
      List.append_assoc, List.cons_append]

theorem bracketPairs_text (p : Program) : bracketPairs p.text = p.pairs 0 := by
  have h := bracketPairsFrom_append p 0 [] []
  simpa [bracketPairs, bracketPairsFrom] using h

theorem take_drop_brackets (before inside rest after : List Char) :
    ((before ++ ('[' :: inside ++ ']' :: rest) ++ after).take (before.length + inside.length + 1)).drop
      (before.length + 1) = inside := by
  simp [List.take_append, List.drop_append, Nat.add_assoc]

def ends (pairs : List (Nat × Nat)) : List Nat :=
  pairs.flatMap fun (first, last) => [first, last]

theorem mem_ends_pairs {p : Program} {i k : Nat} (h : k ∈ ends (p.pairs i)) :
    i ≤ k ∧ k < i + p.length := by
  induction p generalizing i with
  | done => simp [ends, Program.pairs] at h
  | command c p ih =>
    have := ih h
    rw [Program.length_command]
    omega
  | loop body p ihb ih =>
    simp only [ends, Program.pairs, List.flatMap_append, List.flatMap_cons, List.mem_append,
      List.mem_cons, List.not_mem_nil, or_false] at h
    rw [Program.length_loop]
    rcases h with h | (rfl | rfl) | h
    · have := ihb h
      omega
    · omega
    · omega
    · have := ih h
      omega

theorem ends_pairs_loop (body rest : Program) (i : Nat) :
    ends ((Program.loop body rest).pairs i) = ends (body.pairs (i + 1)) ++
      i :: (i + body.length + 1) :: ends (rest.pairs (i + body.length + 2)) := by
  simp [ends, Program.pairs]

/-- No position belongs to two brackets. -/
theorem nodup_ends_pairs (p : Program) (i : Nat) : (ends (p.pairs i)).Nodup := by
  induction p generalizing i with
  | done => exact .nil
  | command c p ih => exact ih (i + 1)
  | loop body p ihb ih =>
    have hb := fun k => mem_ends_pairs (p := body) (i := i + 1) (k := k)
    have hr := fun k => mem_ends_pairs (p := p) (i := i + body.length + 2) (k := k)
    rw [ends_pairs_loop, List.nodup_append]
    refine ⟨ihb (i + 1), ?_, ?_⟩
    · rw [List.nodup_cons, List.nodup_cons]
      refine ⟨?_, ?_, ih _⟩
      · intro h
        rcases List.mem_cons.1 h with h | h
        · omega
        · have := hr i h
          omega
      · intro h
        have := hr _ h
        omega
    · rintro k hk l hl rfl
      have := hb k hk
      rcases List.mem_cons.1 hl with rfl | hl
      · omega
      rcases List.mem_cons.1 hl with rfl | hl
      · omega
      · have := hr k hl
        omega

theorem partner?_of_mem {pairs : List (Nat × Nat)} (hn : (ends pairs).Nodup) {i j : Nat}
    (h : (i, j) ∈ pairs) : partner? pairs i = some j ∧ partner? pairs j = some i := by
  induction pairs with
  | nil => contradiction
  | cons pair pairs ih =>
    obtain ⟨first, last⟩ := pair
    have hends : ends ((first, last) :: pairs) = first :: last :: ends pairs := rfl
    rw [hends, List.nodup_cons, List.nodup_cons] at hn
    obtain ⟨hfirst, hlast, hn⟩ := hn
    unfold partner?
    rcases List.mem_cons.1 h with h | h
    · obtain ⟨rfl, rfl⟩ := Prod.mk.inj h
      have : i ≠ j := fun e => hfirst (by simp [e])
      simp [this]
    · have hi : i ∈ ends pairs := List.mem_flatMap.2 ⟨(i, j), h, by simp⟩
      have hj : j ∈ ends pairs := List.mem_flatMap.2 ⟨(i, j), h, by simp⟩
      have other : ∀ k ∈ ends pairs, first ≠ k ∧ last ≠ k := fun k hk =>
        ⟨fun e => hfirst (by simp [e, hk]), fun e => hlast (by simp [e, hk])⟩
      rw [List.findSome?_cons_of_isNone, List.findSome?_cons_of_isNone]
      · exact ih hn h
      · simp [other j hj]
      · simp [other i hi]

theorem partner?_pairs {p : Program} {i j : Nat} (h : (i, j) ∈ p.pairs 0) :
    partner? (bracketPairs p.text) i = some j ∧ partner? (bracketPairs p.text) j = some i := by
  rw [bracketPairs_text]
  exact partner?_of_mem (nodup_ends_pairs p 0) h

/-! ## The end of a loop -/

open Codegen in
theorem throughClosing?_append (p : Program) (depth : Nat) (rest : List Char) :
    throughClosing? depth (p.text ++ rest) =
      (throughClosing? depth rest).map (p.text ++ ·) := by
  induction p generalizing depth rest with
  | done => simp [Program.text]
  | command c p ih =>
    have h : throughClosing? depth (c.char :: (p.text ++ rest)) =
        (throughClosing? depth (p.text ++ rest)).map (c.char :: ·) := by
      cases c <;> cases depth <;> rfl
    rw [Program.text, List.cons_append, h, ih, Option.map_map]
    rfl
  | loop body p ihb ih =>
    have hopen : ∀ s, throughClosing? depth ('[' :: s) =
        (throughClosing? (depth + 1) s).map ('[' :: ·) := fun _ => by cases depth <;> rfl
    have hclose : ∀ s, throughClosing? (depth + 1) (']' :: s) =
        (throughClosing? depth s).map (']' :: ·) := fun _ => rfl
    rw [Program.text, List.cons_append, List.cons_append, List.append_assoc, hopen, ihb,
      List.cons_append, hclose, ih]
    simp [Option.map_map, Function.comp_def]

open Codegen in
/-- The loop rule takes a program between brackets, whatever follows. -/
theorem loop?_append (body : Program) (rest : List Char) :
    loop? ('[' :: body.text ++ ']' :: rest) = some ('[' :: body.text ++ [']']) := by
  rw [List.cons_append, loop?, throughClosing?_append]
  rfl

open Codegen in
theorem loop?_text (body rest : Program) :
    loop? (Program.loop body rest).text = some ('[' :: body.text ++ [']']) :=
  loop?_append body rest.text

end Brainfuck
