import Brainfuck.Codegen.Generator
import Brainfuck.Proofs.Block
import Brainfuck.Proofs.Text

/-!
# What the rules take from a program

For each way in which a program can begin, the rule that is selected and the batch or loop it takes:
`select_row`, `select_print`, `select_read`, `select_loop`. Everything is read off
the tree, in which a beginning of commands of one class is found by `Program.exists_span`.
-/

namespace Brainfuck

open Codegen

theorem Program.exists_span {q : Char → Bool} (hq : q '[' = false) (p : Program) :
    ∃ commands rest, p = .after commands rest ∧ (∀ c ∈ commands, q c.char = true) ∧
      p.text.takeWhile q = commands.map Command.char ∧ p.text.dropWhile q = rest.text := by
  induction p with
  | done => exact ⟨[], .done, rfl, by simp, rfl, rfl⟩
  | loop body rest => exact ⟨[], .loop body rest, rfl, by simp, by simp [text, hq], by simp [text, hq]⟩
  | command c rest ih =>
    by_cases hc : q c.char = true
    · obtain ⟨commands, rest', rfl, hall, htake, hdrop⟩ := ih
      refine ⟨c :: commands, rest', rfl, by simpa [hc] using hall, ?_, ?_⟩
      · rw [text, List.takeWhile_cons_of_pos hc, htake, List.map_cons]
      · rw [text, List.dropWhile_cons_of_pos hc, hdrop]
    · exact ⟨[], .command c rest, rfl, by simp, by simp [text, hc], by simp [text, hc]⟩

/-- All rules are asked, and the best answer counts. -/
theorem select_standard (s : List Char) :
    select Rule.standard s =
      .ok (Selection.better (Selection.better (Selection.better (Selection.better
        (Selection.better none .print (printRun? s)) .read (readRun? s))
        .arithmetic (arithmeticRun? s)) .shift (shiftRun? s)) .loop (loop? s)) := rfl

theorem classRun?_eq_none {q : Char → Bool} {c : Char} (h : q c = false) (s : List Char) :
    classRun? q (c :: s) = none := by
  rw [classRun?, List.takeWhile_cons_of_neg (by simp [h])]

/-! ## Rows -/

theorem exists_ups {c d : Command} {commands : List Command} (h : ∀ e ∈ commands, e = c ∨ e = d) :
    ∃ ups : List Bool, commands = ups.map fun up => if up then c else d := by
  induction commands with
  | nil => exact ⟨[], rfl⟩
  | cons e commands ih =>
    obtain ⟨ups, rfl⟩ := ih fun e he => h e (List.mem_cons_of_mem _ he)
    rcases h e List.mem_cons_self with rfl | rfl
    · exact ⟨true :: ups, rfl⟩
    · exact ⟨false :: ups, rfl⟩

theorem Program.exists_row {q : Char → Bool} (hq : q '[' = false) {c : Command} (hc : q c.char = true)
    (rest : Program) :
    ∃ commands p, Program.command c rest = .after (c :: commands) p ∧
      (∀ d ∈ c :: commands, q d.char = true) ∧
      classRun? q (Program.command c rest).text = some ((c :: commands).map Command.char) := by
  obtain ⟨commands, p, rfl, hall, htake, -⟩ := rest.exists_span hq
  refine ⟨commands, p, rfl, by simpa [hc] using hall, ?_⟩
  rw [classRun?, text, List.takeWhile_cons_of_pos hc, htake, List.map_cons]

def Row.rule : Row → Rule
  | change _ => .arithmetic
  | shift _ => .shift

theorem select_row {c : Command} (hc : isSilent c.char = true) (rest : Program) :
    ∃ (r : Row) (p : Program), r.commands ≠ [] ∧ Program.command c rest = .after r.commands p ∧
      select Rule.standard (Program.command c rest).text =
        .ok (some ⟨(Batch.row r).text, r.rule⟩) := by
  rcases Bool.or_eq_true_iff.1 hc with hc | hc
  · obtain ⟨commands, p, hp, hall, hrun⟩ := Program.exists_row rfl hc rest
    obtain ⟨ups, hups⟩ : ∃ ups, c :: commands = (Row.shift ups).commands := by
      refine exists_ups fun d hd => ?_
      have := hall d hd
      cases d <;> first | exact .inl rfl | exact .inr rfl | contradiction
    refine ⟨.shift ups, p, by simp [← hups], by rw [hp, hups], ?_⟩
    rw [select_standard, Batch.text, Batch.commands, ← hups, shiftRun?, hrun, arithmeticRun?]
    cases c
    case right | left =>
      rw [Program.text, classRun?_eq_none rfl]
      rfl
    all_goals contradiction
  · obtain ⟨commands, p, hp, hall, hrun⟩ := Program.exists_row rfl hc rest
    obtain ⟨ups, hups⟩ : ∃ ups, c :: commands = (Row.change ups).commands := by
      refine exists_ups fun d hd => ?_
      have := hall d hd
      cases d <;> first | exact .inl rfl | exact .inr rfl | contradiction
    refine ⟨.change ups, p, by simp [← hups], by rw [hp, hups], ?_⟩
    rw [select_standard, Batch.text, Batch.commands, ← hups, arithmeticRun?, hrun, shiftRun?]
    cases c
    case increment | decrement =>
      rw [Program.text, classRun?_eq_none rfl]
      rfl
    all_goals contradiction

/-! ## Outputs -/

theorem exists_gaps {commands : List Command}
    (h : ∀ c ∈ commands, c = .output ∨ isSilent c.char = true) :
    ∃ (gaps : List (List Command)) (tail : List Command),
      commands = gaps.flatMap (· ++ [.output]) ++ tail ∧
        (∀ gap ∈ gaps, ∀ c ∈ gap, isSilent c.char = true) ∧
        ∀ c ∈ tail, isSilent c.char = true := by
  induction commands with
  | nil => exact ⟨[], [], rfl, by simp, by simp⟩
  | cons c commands ih =>
    obtain ⟨gaps, tail, rfl, hgaps, htail⟩ := ih fun d hd => h d (List.mem_cons_of_mem c hd)
    rcases h c List.mem_cons_self with rfl | hc
    · exact ⟨[] :: gaps, tail, rfl, by simpa using hgaps, htail⟩
    cases gaps with
    | nil => exact ⟨[], c :: tail, rfl, by simp, by simpa [hc] using htail⟩
    | cons gap gaps =>
      refine ⟨(c :: gap) :: gaps, tail, rfl, ?_, htail⟩
      simpa [hc] using hgaps

theorem ne_output_of_silent {c : Command} (h : isSilent c.char = true) : c.char ≠ '.' := by
  cases c <;> first | decide | contradiction

/-- Silent characters at the end are left to the next rule. -/
theorem dropEndWhile_printed {commands tail : List Command}
    (hlast : commands.getLast? = some .output) (htail : ∀ c ∈ tail, isSilent c.char = true) :
    Text.dropEndWhile (· != '.') ((commands ++ tail).map Command.char) =
      commands.map Command.char := by
  have hdrop : ∀ d ∈ (tail.map Command.char).reverse, (d != '.') = true := by
    intro d hd
    obtain ⟨c, hc, rfl⟩ := List.mem_map.1 (List.mem_reverse.1 hd)
    exact bne_iff_ne.2 (ne_output_of_silent (htail c hc))
  have hlast' : ∀ d ∈ (commands.map Command.char).getLast?, (d != '.') = false := by
    intro d hd
    rw [List.getLast?_map, hlast] at hd
    cases hd
    rfl
  rw [← Text.dropEndWhile_of_last hlast']
  simp only [Text.dropEndWhile, List.map_append, List.reverse_append,
    List.dropWhile_append_of_pos hdrop]

theorem getLast?_output (gaps : List (List Command)) :
    (Command.output :: gaps.flatMap (· ++ [.output])).getLast? = some .output := by
  rcases List.eq_nil_or_concat gaps with rfl | ⟨gaps, gap, rfl⟩
  · rfl
  · simp [List.getLast?_cons]

theorem printRun?_text (rest : Program) :
    ∃ (gaps : List (List Command)) (p : Program), (∀ gap ∈ gaps, ∀ c ∈ gap, isSilent c.char = true) ∧
      Program.command .output rest = .after (.output :: gaps.flatMap (· ++ [.output])) p ∧
      printRun? (Program.command .output rest).text =
        some ((Command.output :: gaps.flatMap (· ++ [.output])).map Command.char) := by
  obtain ⟨commands, p, rfl, hall, htake, -⟩ :=
    Program.exists_span (q := fun c => c == '.' || isSilent c) rfl rest
  have hkinds : ∀ c ∈ commands, c = .output ∨ isSilent c.char = true := by
    intro c hc
    rcases Bool.or_eq_true_iff.1 (hall c hc) with h | h
    · exact .inl (Command.char_injective (eq_of_beq h))
    · exact .inr h
  obtain ⟨gaps, tail, rfl, hgaps, htail⟩ := exists_gaps hkinds
  refine ⟨gaps, .after tail p, hgaps, by simp, ?_⟩
  rw [← dropEndWhile_printed (getLast?_output gaps) htail]
  simp only [Program.text, show Command.output.char = '.' from rfl, printRun?, Option.some.injEq]
  rw [List.takeWhile_cons_of_pos rfl, htake]
  rfl

theorem select_print (rest : Program) :
    ∃ (gaps : List (List Command)) (p : Program), (∀ gap ∈ gaps, ∀ c ∈ gap, isSilent c.char = true) ∧
      Program.command .output rest = .after (.output :: gaps.flatMap (· ++ [.output])) p ∧
      select Rule.standard (Program.command .output rest).text =
        .ok (some ⟨(Command.output :: gaps.flatMap (· ++ [.output])).map Command.char, .print⟩) := by
  obtain ⟨gaps, p, hgaps, hp, hprint⟩ := printRun?_text rest
  refine ⟨gaps, p, hgaps, hp, ?_⟩
  rw [select_standard, hprint, Program.text, arithmeticRun?, shiftRun?, classRun?_eq_none rfl,
    classRun?_eq_none rfl]
  rfl

/-! ## Reads -/

theorem furtherReads_text (fuel : List Char) (p : Program) :
    ∃ (gaps : List Gap) (rest : Program),
      p = .after (gaps.flatMap fun gap => gap.commands ++ [.input]) rest ∧
      furtherReads fuel p.text =
        (gaps.flatMap fun gap => gap.commands ++ [.input]).map Command.char := by
  induction fuel generalizing p with
  | nil => exact ⟨[], p, rfl, rfl⟩
  | cons _ fuel ih =>
    obtain ⟨commands, p', rfl, hall, htake, hdrop⟩ := p.exists_span (q := isSilent) rfl
    have hnone : ∀ s, s = [] → ∃ (gaps : List Gap) (rest : Program),
        Program.after commands p' = .after (gaps.flatMap fun gap => gap.commands ++ [.input]) rest ∧
        s = (gaps.flatMap fun gap => gap.commands ++ [.input]).map Command.char :=
      fun s hs => ⟨[], _, rfl, by simpa using hs⟩
    rw [furtherReads, htake, hdrop]
    split
    · rename_i s hs
      by_cases hgap : isGap (commands.map Command.char) = true
      · obtain ⟨rest, rfl, rfl⟩ : ∃ rest, p' = .command .input rest ∧ s = rest.text := by
          cases p' with
          | done => simp [Program.text] at hs
          | loop body rest => simp [Program.text] at hs
          | command c rest =>
            obtain ⟨hc, hs⟩ := List.cons.inj hs
            exact ⟨rest, by rw [Command.char_injective (d := .input) hc], hs.symm⟩
        obtain ⟨gaps, rest', rfl, hfurther⟩ := ih rest
        refine ⟨⟨commands, hall, hgap⟩ :: gaps, rest', by simp, ?_⟩
        rw [if_pos hgap, hfurther]
        simp only [List.flatMap_cons, List.map_append, List.map_cons, List.append_assoc]
        rfl
      · rw [if_neg hgap]
        exact hnone [] rfl
    · exact hnone [] rfl

theorem select_read (rest : Program) :
    ∃ (gaps : List Gap) (p : Program), Program.command .input rest = .after (Batch.read gaps).commands p ∧
      select Rule.standard (Program.command .input rest).text =
        .ok (some ⟨(Batch.read gaps).text, .read⟩) := by
  obtain ⟨gaps, p, hp, hfurther⟩ := furtherReads_text rest.text rest
  refine ⟨gaps, p, by rw [Batch.commands, Program.after_cons, ← hp], ?_⟩
  have hread : readRun? (Program.command .input rest).text = some (Batch.read gaps).text := by
    rw [Program.text, show Command.input.char = ',' from rfl, readRun?, hfurther]
    rfl
  rw [select_standard, hread, Program.text, arithmeticRun?, shiftRun?, classRun?_eq_none rfl,
    classRun?_eq_none rfl]
  rfl

/-! ## Loops -/

theorem select_loop (body rest : Program) :
    select Rule.standard (Program.loop body rest).text =
      .ok (some ⟨'[' :: body.text ++ [']'], .loop⟩) := by
  rw [select_standard, loop?_text, Program.text, List.cons_append, arithmeticRun?, shiftRun?,
    classRun?_eq_none rfl, classRun?_eq_none rfl]
  rfl

end Brainfuck
