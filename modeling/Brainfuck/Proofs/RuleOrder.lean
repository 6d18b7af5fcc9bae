import Brainfuck.Proofs.Languages

/-!
# The order of the rules

Of equally long answers that of the earliest rule is taken. For the rules of the language this never
decides anything, since no two of them have an answer in the same place.

* `Answers.eq_none` : a rule has no answer to a text that begins with none of its characters, as the
  languages of the rules show (`beginsIn_standard`);
* `Codegen.Rule.Apart` : of two rules, one has no answer, whatever the text (`pairwise_apart`);
* `selectFrom_swap`, `select_perm` : such rules can change places, two of them and all of them;
* `generatePieces_congr`, `fragment_congr` : the choices determine the lines, also those of the fragments
  inside a piece, with their labels;
* `run_perm` : the rules of the language in any order.
-/

namespace Brainfuck

open Codegen

variable {s : List Char}

/-! ## Rules apart -/

/-- A rule has no answer to a text unless the text begins with one of the given characters. -/
def Codegen.Rule.BeginsIn (rule : Rule) (chars : List Char) : Prop :=
  ∀ s, (∀ c ∈ s.head?, c ∉ chars) → rule.recognise s = .ok none

/-- Of two rules, one has no answer, whatever the text. -/
def Codegen.Rule.Apart (rule other : Rule) : Prop :=
  ∀ s, rule.recognise s = .ok none ∨ other.recognise s = .ok none

theorem Codegen.Rule.Apart.symm {rule other : Rule} (h : rule.Apart other) : other.Apart rule :=
  fun s => (h s).symm

theorem Answers.eq_none {language : List Char → Prop} {answer : Option (List Char)}
    (h : Answers language s answer) {chars : List Char}
    (hlanguage : ∀ t, language t → ∃ c ∈ chars, t.head? = some c) (hs : ∀ c ∈ s.head?, c ∉ chars) :
    answer = none := by
  cases answer with
  | none => rfl
  | some t =>
    obtain ⟨c, hc, hhead⟩ := hlanguage t (Longest.belongs h)
    obtain ⟨rest, rfl⟩ := Longest.starts h
    refine absurd hc (hs c ?_)
    rw [List.head?_append, hhead]
    rfl

theorem IsRow.head? {chars t : List Char} (h : IsRow chars t) : ∃ c ∈ chars, t.head? = some c := by
  obtain ⟨c, rest, rfl⟩ := List.exists_cons_of_ne_nil h.1
  exact ⟨c, h.2 c List.mem_cons_self, rfl⟩

theorem apart_of_beginsIn {rule other : Rule} {chars others : List Char} (h : rule.BeginsIn chars)
    (h' : other.BeginsIn others) (hdisjoint : ∀ c ∈ chars, c ∉ others) : rule.Apart other := by
  intro s
  by_cases hs : ∀ c ∈ s.head?, c ∉ chars
  · exact .inl (h s hs)
  · refine .inr (h' s fun c hc => ?_)
    -- the text begins with a character of the one rule, which the other rule does not have
    apply hdisjoint
    by_contra hnot
    apply hs
    intro d hd
    rw [Option.mem_unique hd hc]
    exact hnot

/-- The rules of the language, each with the characters that its texts begin with. -/
def firstCharacters : List (Rule × List Char) :=
  [(.print, ".".toList), (.read, ",".toList), (.arithmetic, "+-".toList), (.shift, "><".toList),
    (.loop, "[".toList)]

theorem beginsIn_standard : ∀ entry ∈ firstCharacters, entry.1.BeginsIn entry.2 := by
  simp only [firstCharacters, List.forall_mem_cons]
  refine ⟨?_, ?_, ?_, ?_, ?_, by simp⟩ <;> intro s hs <;> apply congrArg Except.ok
  · exact (answers_printRun? s).eq_none (fun t ht => ⟨'.', by decide, ht.first⟩) hs
  · refine (answers_readRun? s).eq_none (fun t ht => ⟨',', by decide, ?_⟩) hs
    obtain ⟨gaps, -, rfl⟩ := ht
    rfl
  · exact (answers_classRun? isChange_iff s).eq_none (fun t ht => ht.head?) hs
  · exact (answers_classRun? isShift_iff s).eq_none (fun t ht => ht.head?) hs
  · exact (answers_loop? s).eq_none (fun t ht => ⟨'[', by decide, ht.opens⟩) hs

theorem pairwise_apart : Rule.standard.Pairwise Rule.Apart := by
  have hdisjoint : firstCharacters.Pairwise fun entry other => ∀ c ∈ entry.2, c ∉ other.2 := by
    simp [firstCharacters]
  have hrules : Rule.standard = firstCharacters.map Prod.fst := rfl
  rw [hrules, List.pairwise_map]
  refine hdisjoint.imp_of_mem fun hentry hother h => ?_
  exact apart_of_beginsIn (beginsIn_standard _ hentry) (beginsIn_standard _ hother) h

/-! ## The choice of a rule -/

theorem selectFrom_of_none {rule : Rule} (h : rule.recognise s = .ok none) (best : Option Selection)
    (rules : List Rule) : selectFrom s best (rule :: rules) = selectFrom s best rules := by
  rw [selectFrom, h]
  rfl

theorem selectFrom_swap {rule other : Rule} (h : rule.Apart other) (s : List Char)
    (best : Option Selection) (rules : List Rule) :
    selectFrom s best (rule :: other :: rules) = selectFrom s best (other :: rule :: rules) := by
  rcases h s with hnone | hnone
  · rw [selectFrom_of_none hnone, selectFrom, selectFrom]
    cases other.recognise s with
    | error failure => rfl
    | ok answer => exact (selectFrom_of_none hnone _ rules).symm
  · rw [selectFrom_of_none hnone, selectFrom, selectFrom]
    cases rule.recognise s with
    | error failure => rfl
    | ok answer => exact selectFrom_of_none hnone _ rules

theorem selectFrom_perm {rules rules' : List Rule} (h : rules.Perm rules')
    (hapart : rules.Pairwise Rule.Apart) (s : List Char) (best : Option Selection) :
    selectFrom s best rules = selectFrom s best rules' := by
  induction h generalizing best with
  | nil => rfl
  | cons rule _ ih =>
    rw [selectFrom, selectFrom]
    cases rule.recognise s with
    | error failure => rfl
    | ok answer => exact ih hapart.of_cons _
  | swap rule other rules =>
    rw [List.pairwise_cons] at hapart
    exact selectFrom_swap (hapart.1 rule List.mem_cons_self) s best rules
  | trans h _ ih ih' =>
    have hapart' := (h.pairwise_iff fun hab => hab.symm).1 hapart
    rw [ih hapart, ih' hapart']

/-- Rules that are apart choose alike in every order. -/
theorem select_perm {rules rules' : List Rule} (h : rules.Perm rules')
    (hapart : rules'.Pairwise Rule.Apart) (s : List Char) : select rules s = select rules' s :=
  (selectFrom_perm h.symm hapart s none).symm

/-! ## Generators -/

theorem generatePieces_congr {rules rules' : List Rule}
    (hselect : ∀ s, select rules s = select rules' s)
    (translate : Rule → List Char → Gen (List Line)) (fuel offset : Nat) (s : List Char) :
    generatePieces rules translate fuel offset s = generatePieces rules' translate fuel offset s := by
  induction fuel generalizing offset s with
  | zero => cases s <;> rfl
  | succ fuel ih =>
    cases s with
    | nil => rfl
    | cons c rest =>
      unfold generatePieces
      rw [hselect]
      simp only [ih]

/-- Generators that choose alike make the same of every fragment, and of the fragments inside it. -/
theorem fragment_congr {rules rules' : List Rule} (hselect : ∀ s, select rules s = select rules' s)
    (convention : Convention) (depth : Nat) (s : List Char) :
    (⟨rules, convention⟩ : Generator).fragment depth s =
      (⟨rules', convention⟩ : Generator).fragment depth s := by
  induction depth generalizing s with
  | zero => rfl
  | succ depth ih =>
    have hinner : (⟨rules, convention⟩ : Generator).fragment depth =
        (⟨rules', convention⟩ : Generator).fragment depth := by
      funext t
      exact ih t
    unfold Generator.fragment
    rw [hinner]
    exact generatePieces_congr hselect _ _ _ _

/-- The rules of the language can stand in any order. Code generation goes the same way in the same pieces,
and makes the same lines of a text, or finds no rule in the same place. Wherever a rule is to be chosen, the
choice is the same. -/
theorem run_perm {rules : List Rule} (h : rules.Perm Rule.standard) (convention : Convention)
    (s : List Char) :
    (⟨rules, convention⟩ : Generator).run s = ({ convention } : Generator).run s ∧
      ((∃ lines, (⟨rules, convention⟩ : Generator).generate s = .ok lines ∧
          ({ convention } : Generator).generate s = .ok lines) ∨
        ∃ offset text, (⟨rules, convention⟩ : Generator).generate s = .error (.noMatch offset text) ∧
          ({ convention } : Generator).generate s = .error (.noMatch offset text)) ∧
      ∀ start, ∃ choice, select rules (s.drop start) = .ok choice ∧
        select Rule.standard (s.drop start) = .ok choice := by
  have hselect := select_perm h pairwise_apart
  have hrun : (⟨rules, convention⟩ : Generator).run s = ({ convention } : Generator).run s := by
    unfold Generator.run
    rw [fragment_congr hselect]
  have hgenerate : (⟨rules, convention⟩ : Generator).generate s =
      ({ convention } : Generator).generate s := congrArg Prod.fst hrun
  refine ⟨hrun, ?_, fun start => ⟨_, hselect _, rfl⟩⟩
  rw [hgenerate]
  rcases generate_cases (show ({ convention } : Generator).rules = _ from rfl) s with
    ⟨⟨lines, hlines⟩, -⟩ | ⟨⟨offset, text, herror⟩, -⟩
  · exact .inl ⟨lines, hlines, hlines⟩
  · exact .inr ⟨offset, text, herror, herror⟩

/-- The rules from the last to the first, on two nested loops and on a loop with a character that no rule
takes. -/
theorem run_perm_reversed :
    Rule.standard.reverse.Perm Rule.standard ∧
      (⟨Rule.standard.reverse, {}⟩ : Generator).run "+[>[.-]<,]".toList =
        ({} : Generator).run "+[>[.-]<,]".toList ∧
      (⟨Rule.standard.reverse, {}⟩ : Generator).generate "+[>x]".toList =
        .error (.noMatch 1 "x".toList) := by
  have h : Rule.standard.reverse.Perm Rule.standard := List.reverse_perm _
  have hflawed := (run_perm h {} "+[>x]".toList).1
  refine ⟨h, (run_perm h {} _).1, (congrArg Prod.fst hflawed).trans ?_⟩
  decide +kernel

end Brainfuck
