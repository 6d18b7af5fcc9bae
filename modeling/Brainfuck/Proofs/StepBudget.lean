import Brainfuck.Proofs.Emulation
import Brainfuck.Proofs.Tracing

/-!
# What a step budget does to a run

A budget is looked at before each step, and after the test for halting. So a run that needs no more steps
than it allows is the same as without it, and any other run is cut off in the state that it has reached by
then.

* `System.Fate` : what a number of steps from a state come to, of which there are three kinds
  (`System.fate`);
* `System.drive_some_of_le`, `drive_some_of_halts`, `drive_some_of_fails`, `drive_some_of_goesOn` : runs under
  a budget beside runs without one;
* `System.steps_of_exhausted`, `drive_some_ne_paused` : what runs under a budget come to;
* `System.Steps.observed` : the steps of a system, with an entry of the log for each;
* `Interpreter.Session.BudgetExact`, `Machine.Emulator.BudgetExact` : what this means for traces of programs
  and for runs of the machine;
* `budget_exact` : it holds of all of them.
-/

namespace Brainfuck

/-! ## Systems -/

namespace System

variable {σ ε α β : Type} {system : System σ ε}

/-- What the first `m` steps from a state come to: the system halts after no more than these, one of them
fails, or all of them are made and there is a further one to make. -/
inductive Fate (system : System σ ε) (m : Nat) (s : σ) : Prop
  | halts {n : Nat} {t : σ} (le : n ≤ m) (steps : system.Steps n s t) (halted : system.halted t = true)
  | fails {n : Nat} {t u : σ} {e : ε} (lt : n < m) (steps : system.Steps n s t)
      (running : system.halted t = false) (failed : system.step t = .error (e, u))
  | goesOn {t : σ} (steps : system.Steps m s t) (running : system.halted t = false)

theorem fate (system : System σ ε) (m : Nat) (s : σ) : system.Fate m s := by
  induction m with
  | zero =>
    cases hhalted : system.halted s with
    | true => exact .halts (Nat.le_refl 0) (.refl s) hhalted
    | false => exact .goesOn (.refl s) hhalted
  | succ m ih =>
    cases ih with
    | halts le steps halted => exact .halts (Nat.le_succ_of_le le) steps halted
    | fails lt steps running failed => exact .fails (Nat.lt_succ_of_lt lt) steps running failed
    | @goesOn t steps running =>
      cases hnext : system.step t with
      | error failure => exact .fails (Nat.lt_succ_self m) steps running hnext
      | ok u =>
        have hsteps := steps.trans (.single running hnext)
        cases hhalted : system.halted u with
        | true => exact .halts (Nat.le_refl _) hsteps hhalted
        | false => exact .goesOn hsteps hhalted

section

variable {m n : Nat} {s t u : σ} {e : ε}

/-- A budget is not felt as long as there are no more turns than it allows. -/
theorem drive_some_of_le {turns steps : Nat} (h : steps + turns ≤ m) (s : σ) :
    system.drive (some m) turns steps s = system.drive none turns steps s := by
  induction turns generalizing steps s with
  | zero => rfl
  | succ turns ih =>
    have hopen : (some m).any (· ≤ steps) = false := by
      simp only [Option.any_some, decide_eq_false_iff_not]
      omega
    cases hhalted : system.halted s with
    | true => rw [drive_of_halted hhalted, drive_of_halted hhalted]
    | false =>
      cases hnext : system.step s with
      | error failure => rw [drive_of_error hhalted hnext hopen, drive_of_error hhalted hnext rfl]
      | ok s' =>
        rw [drive_of_ok hhalted hnext hopen, drive_of_ok hhalted hnext rfl]
        exact ih (by omega) s'

theorem drive_of_halts (h : system.Steps n s t) (halted : system.halted t = true)
    {budget : Option Nat} (hb : ∀ limit ∈ budget, n ≤ limit) {turns : Nat} (hturns : n < turns) :
    system.drive budget turns 0 s = ⟨t, n, .halted⟩ := by
  obtain ⟨k, rfl⟩ : ∃ k, turns = n + (k + 1) := ⟨turns - n - 1, by omega⟩
  rw [drive_of_steps h (by simpa using hb), drive_of_halted halted, Nat.zero_add]

theorem drive_of_fails (h : system.Steps n s t) (running : system.halted t = false)
    (failed : system.step t = .error (e, u)) {budget : Option Nat}
    (hb : ∀ limit ∈ budget, n < limit) {turns : Nat} (hturns : n < turns) :
    system.drive budget turns 0 s = ⟨u, n, .failed e⟩ := by
  obtain ⟨k, rfl⟩ : ∃ k, turns = n + (k + 1) := ⟨turns - n - 1, by omega⟩
  have hopen : budget.any (· ≤ 0 + n) = false := by
    cases budget with
    | none => rfl
    | some limit => simpa using hb limit rfl
  rw [drive_of_steps h (fun limit hl => by have := hb limit hl; omega),
    drive_of_error running failed hopen, Nat.zero_add]

theorem drive_some_of_halts (h : system.Steps n s t) (halted : system.halted t = true) (hle : n ≤ m)
    (turns : Nat) : system.drive (some m) turns 0 s = system.drive none turns 0 s := by
  by_cases hturns : turns ≤ m
  · exact drive_some_of_le (by omega) s
  · rw [drive_of_halts h halted (by simpa using hle) (by omega),
      drive_of_halts h halted (by simp) (by omega)]

theorem drive_some_of_fails (h : system.Steps n s t) (running : system.halted t = false)
    (failed : system.step t = .error (e, u)) (hlt : n < m) (turns : Nat) :
    system.drive (some m) turns 0 s = system.drive none turns 0 s := by
  by_cases hturns : turns ≤ m
  · exact drive_some_of_le (by omega) s
  · rw [drive_of_fails h running failed (by simpa using hlt) (by omega),
      drive_of_fails h running failed (by simp) (by omega)]

/-- Without a budget a run is paused when its turns are used up. -/
theorem drive_none_of_steps (h : system.Steps n s t) :
    system.drive none n 0 s = ⟨t, n, .paused⟩ := by
  have hdrive : system.drive none (n + 0) 0 s = system.drive none 0 (0 + n) t :=
    drive_of_steps h (by simp) 0
  rwa [Nat.add_zero, Nat.zero_add] at hdrive

/-- Any other run is cut off in the state to which the steps of the budget lead. -/
theorem drive_some_of_goesOn (h : system.Steps m s t) (running : system.halted t = false)
    {turns : Nat} (hturns : m < turns) :
    system.drive (some m) turns 0 s = ⟨t, m, .exhausted⟩ := by
  obtain ⟨k, rfl⟩ : ∃ k, turns = m + (k + 1) := ⟨turns - m - 1, by omega⟩
  rw [drive_of_steps h (by simp), drive_of_exhausted running (by omega), Nat.zero_add]

theorem steps_of_exhausted {turns : Nat}
    (h : (system.drive (some m) turns 0 s).ending = .exhausted) :
    system.Steps m s (system.drive (some m) turns 0 s).state := by
  obtain ⟨n, u, hsteps, hn, hlimit, hend⟩ :=
    steps_of_drive (rfl : _ = system.drive (some m) turns 0 s)
  rw [h] at hend
  obtain ⟨-, hspent, hstate⟩ := hend
  have hle := hlimit m rfl
  simp only [Option.any_some, decide_eq_true_eq] at hspent
  obtain rfl : n = m := by omega
  rwa [hstate]

/-- One turn more than the budget has steps brings every run to an end. -/
theorem drive_some_ne_paused {turns : Nat} (hturns : m < turns) :
    (system.drive (some m) turns 0 s).ending ≠ .paused := by
  intro h
  obtain ⟨n, u, hsteps, hn, hlimit, hend⟩ :=
    steps_of_drive (rfl : _ = system.drive (some m) turns 0 s)
  rw [h] at hend
  obtain ⟨hall, -⟩ := hend
  have hle := hlimit m rfl
  omega

/-- The same steps are made with a log, which gets an entry for each. -/
theorem Steps.observed (h : system.Steps n s t) (note : σ → β) (entry : Nat → β → σ → α)
    (log : Array α) :
    ∃ log' : Array α, (system.observed note entry).Steps n (s, log) (t, log') ∧
      log'.size = log.size + n := by
  induction h generalizing log with
  | refl s => exact ⟨log, .refl _, rfl⟩
  | @step n s s' t running ok _ ih =>
    obtain ⟨log', hsteps, hsize⟩ := ih (log.push (entry (log.size + 1) (note s) s'))
    have hstep : (system.observed note entry).step (s, log) =
        .ok (s', log.push (entry (log.size + 1) (note s) s')) := by
      simp only [System.observed, ok]
    refine ⟨log', .step running hstep hsteps, ?_⟩
    rw [hsize, Array.size_push]
    omega

end

end System

/-! ## Traces -/

namespace Interpreter.Session

variable {session : Session} {input : List Int} {radius : Int} {m : Nat}

def unlimited (session : Session) (text : List Char) (input : List Int) (turns : Nat) :
    Run Config Fault :=
  (system (Code.ofText text) session.settings.atEnd).drive none turns 0 (session.initial input)

/-- The traces of a program under a budget of `m` steps, beside its traces without one. -/
structure BudgetExact (session : Session) (text : List Char) (input : List Int) (radius : Int)
    (m : Nat) : Prop where
  /-- If the program comes to its end after no more commands than the budget allows, the traces are the
  same. -/
  halts : ∀ {turns n : Nat} {c : Config}, session.unlimited text input turns = ⟨c, n, .halted⟩ → n ≤ m →
    ∀ k, session.trace text input (some m) radius k = session.trace text input none radius k
  /-- If one of these commands fails, the traces are the same too: they fail alike, behind a snapshot for
  each command before. -/
  fails : ∀ {turns n : Nat} {c : Config} {fault : Fault},
    session.unlimited text input turns = ⟨c, n, .failed fault⟩ → n < m →
    (∀ k, session.trace text input (some m) radius k = session.trace text input none radius k) ∧
      ∀ k, n < k → (session.trace text input (some m) radius k).1.failure = some (.fault fault) ∧
        (session.trace text input (some m) radius k).1.snapshots.length = n
  /-- Otherwise the trace has the first snapshots of the trace without a budget, as many as the budget
  allows, and then fails for want of steps, with the tape, the pointer and the output as they are by
  then. -/
  exhausts : (∀ turns n c, session.unlimited text input turns = ⟨c, n, .halted⟩ → m < n) →
    (∀ turns n c fault, session.unlimited text input turns = ⟨c, n, .failed fault⟩ → m ≤ n) →
    (∀ k ≤ m, session.trace text input (some m) radius k = session.trace text input none radius k) ∧
      ∃ c, session.unlimited text input m = ⟨c, m, .paused⟩ ∧
        (session.trace text input none radius m).1.snapshots.length = m ∧
        ∀ k, m < k → session.trace text input (some m) radius k =
          (⟨(session.trace text input none radius m).1.snapshots, some .outOfSteps⟩,
            ⟨session.settings, c.tape, c.pointer, c.output⟩)

section

variable {p : Program} {n : Nat} {c d : Config}

theorem exists_log (h : (system (Code.ofText p.text) session.settings.atEnd).Steps n
      (session.initial input) c) (radius : Int) :
    ∃ log, (recorder (Code.ofText p.text) session.settings.atEnd radius).Steps n
        (session.initial input, #[]) (c, log) ∧ log.size = n := by
  obtain ⟨log, hlogged, hsize⟩ := h.observed (fun c => (Code.ofText p.text).text[c.pc]?)
    (Snapshot.of radius) #[]
  exact ⟨log, hlogged, by simpa using hsize⟩

theorem snapshots_of_steps {log : Array Snapshot}
    (h : (recorder (Code.ofText p.text) session.settings.atEnd radius).Steps n
      (session.initial input, #[]) (c, log)) :
    (session.trace p.text input none radius n).1.snapshots = log.toList := by
  cases n with
  | zero =>
    cases h
    rfl
  | succ n =>
    have hrecording : session.recording p.text input none radius (n + 1) = ⟨(c, log), n + 1, .paused⟩ :=
      System.drive_none_of_steps h
    rw [trace_text, hrecording]
    rfl

theorem trace_eq_of_recording {k : Nat}
    (h : session.recording p.text input (some m) radius k =
      session.recording p.text input none radius k) :
    session.trace p.text input (some m) radius k = session.trace p.text input none radius k := by
  cases k with
  | zero => rfl
  | succ k => rw [trace_text, trace_text, h]

theorem trace_of_halts
    (h : (system (Code.ofText p.text) session.settings.atEnd).Steps n (session.initial input) c)
    (halted : (system (Code.ofText p.text) session.settings.atEnd).halted c = true) (hle : n ≤ m)
    (radius : Int) (k : Nat) :
    session.trace p.text input (some m) radius k = session.trace p.text input none radius k := by
  obtain ⟨log, hlogged, -⟩ := exists_log h radius
  apply trace_eq_of_recording
  exact System.drive_some_of_halts hlogged halted hle k

theorem trace_of_fails {fault : Fault}
    (h : (system (Code.ofText p.text) session.settings.atEnd).Steps n (session.initial input) d)
    (running : (system (Code.ofText p.text) session.settings.atEnd).halted d = false)
    (failed : (system (Code.ofText p.text) session.settings.atEnd).step d = .error (fault, c))
    (hlt : n < m) (radius : Int) :
    (∀ k, session.trace p.text input (some m) radius k = session.trace p.text input none radius k) ∧
      ∀ k, n < k → (session.trace p.text input (some m) radius k).1.failure = some (.fault fault) ∧
        (session.trace p.text input (some m) radius k).1.snapshots.length = n := by
  obtain ⟨log, hlogged, hsize⟩ := exists_log h radius
  have hfailed : (recorder (Code.ofText p.text) session.settings.atEnd radius).step (d, log) =
      .error (fault, (c, log)) := by
    simp only [recorder, System.observed, failed]
  refine ⟨fun k => ?_, fun k hk => ?_⟩
  · apply trace_eq_of_recording
    exact System.drive_some_of_fails hlogged running hfailed hlt k
  · obtain ⟨k, rfl⟩ : ∃ i, k = i + 1 := ⟨k - 1, by omega⟩
    have hlimit : ∀ limit ∈ some m, n < limit := by simpa using hlt
    have hrecording : session.recording p.text input (some m) radius (k + 1) =
        ⟨(c, log), n, .failed fault⟩ :=
      System.drive_of_fails hlogged running hfailed hlimit hk
    rw [trace_text, hrecording]
    exact ⟨rfl, hsize⟩

theorem trace_of_goesOn
    (h : (system (Code.ofText p.text) session.settings.atEnd).Steps m (session.initial input) c)
    (running : (system (Code.ofText p.text) session.settings.atEnd).halted c = false) (radius : Int) :
    (∀ k ≤ m, session.trace p.text input (some m) radius k =
        session.trace p.text input none radius k) ∧
      (session.trace p.text input none radius m).1.snapshots.length = m ∧
      ∀ k, m < k → session.trace p.text input (some m) radius k =
        (⟨(session.trace p.text input none radius m).1.snapshots, some .outOfSteps⟩,
          ⟨session.settings, c.tape, c.pointer, c.output⟩) := by
  obtain ⟨log, hlogged, hsize⟩ := exists_log h radius
  rw [snapshots_of_steps hlogged]
  refine ⟨fun k hk => ?_, hsize, fun k hk => ?_⟩
  · apply trace_eq_of_recording
    exact System.drive_some_of_le (by omega) _
  · obtain ⟨k, rfl⟩ : ∃ i, k = i + 1 := ⟨k - 1, by omega⟩
    have hrecording : session.recording p.text input (some m) radius (k + 1) =
        ⟨(c, log), m, .exhausted⟩ :=
      System.drive_some_of_goesOn hlogged running hk
    rw [trace_text, hrecording]
    rfl

end

theorem budgetExact (session : Session) (p : Program) (input : List Int) (radius : Int) (m : Nat) :
    session.BudgetExact p.text input radius m := by
  refine ⟨fun {turns n c} h hle => ?_, fun {turns n c fault} h hlt => ?_, fun hhalts hfails => ?_⟩
  · obtain ⟨hsteps, hhalted, -⟩ := System.drive_halted_iff.1 ⟨turns, h⟩
    exact trace_of_halts hsteps hhalted hle radius
  · obtain ⟨d, hsteps, running, failed, -⟩ := System.drive_failed_iff.1 ⟨turns, h⟩
    exact trace_of_fails hsteps running failed hlt radius
  · cases System.fate (system (Code.ofText p.text) session.settings.atEnd) m
      (session.initial input) with
    | halts le steps halted =>
      obtain ⟨turns, hturns⟩ := System.drive_halted_iff.2
        ⟨steps, halted, fun limit (hl : limit ∈ none) => by contradiction⟩
      have := hhalts turns _ _ hturns
      omega
    | fails lt steps running failed =>
      obtain ⟨turns, hturns⟩ := System.drive_failed_iff.2
        ⟨_, steps, running, failed, fun limit (hl : limit ∈ none) => by contradiction⟩
      have := hfails turns _ _ _ hturns
      omega
    | @goesOn c steps running =>
      obtain ⟨hsame, hlength, hcut⟩ := trace_of_goesOn steps running radius
      exact ⟨hsame, c, System.drive_none_of_steps steps, hlength, hcut⟩

end Interpreter.Session

/-! ## Runs of the machine -/

namespace Machine.Emulator

/-- Runs of lines under a budget of `m` steps, beside runs of the same lines without one. -/
structure BudgetExact (emulator : Emulator) (lines : List (List Char)) (input : List Int) (m : Nat) :
    Prop where
  /-- The results are those that are left without a budget after no more steps than it allows. -/
  returns : ∀ result,
    (∃ turns, ({ emulator with limit := some m }.runLines lines input turns).1 = .ok result) ↔
      (∃ turns, ({ emulator with limit := none }.runLines lines input turns).1 = .ok result) ∧
        result.steps ≤ m
  /-- A run that fails for want of steps leaves the state to which so many instructions lead without a
  budget. -/
  exhausts : ∀ turns,
    ({ emulator with limit := some m }.runLines lines input turns).1 = .error .outOfSteps →
      ∃ s, { emulator with limit := none }.execute (emulator.initial input) (Listing.ofLines lines) m =
          ⟨s, m, .paused⟩ ∧
        ({ emulator with limit := some m }.runLines lines input turns).2.state = s
  /-- One turn more than the budget has steps brings every run to an end. -/
  ends : ∀ turns, m < turns →
    ({ emulator with limit := some m }.runLines lines input turns).1 ≠ .error .interrupted

theorem steps_of_resultOf {emulator : Emulator} {s : State} {n : Nat} {result : Result}
    (h : emulator.resultOf s n = .ok result) : result.steps = n := by
  unfold resultOf at h
  split at h
  · contradiction
  · cases h
    rfl

/-- Only runs that were cut off fail for want of steps, and only paused ones are interrupted. -/
theorem ending_of_outcome {emulator : Emulator} {run : Run State (Nat × Fault)} :
    (emulator.outcome run = .error .outOfSteps → run.ending = .exhausted) ∧
      (emulator.outcome run = .error .interrupted → run.ending = .paused) := by
  obtain ⟨s, n, ending⟩ := run
  cases ending with
  | halted =>
    simp only [outcome, resultOf]
    split <;> simp
  | failed e => simp [outcome]
  | exhausted => simp [outcome]
  | paused => simp [outcome]

theorem budgetExact (emulator : Emulator) (lines : List (List Char)) (input : List Int) (m : Nat) :
    emulator.BudgetExact lines input m := by
  refine ⟨fun result => ?_, fun turns h => ?_, fun turns hturns h => ?_⟩
  · have hlimited := outcome_execute_iff { emulator with limit := some m } (emulator.initial input)
      (Listing.ofLines lines) result
    have hunlimited := outcome_execute_iff { emulator with limit := none } (emulator.initial input)
      (Listing.ofLines lines) result
    refine hlimited.trans ⟨?_, ?_⟩
    · rintro ⟨n, t, hsteps, hhalted, hlimit, hresult⟩
      refine ⟨hunlimited.2 ⟨n, t, hsteps, hhalted, nofun, hresult⟩, ?_⟩
      rw [steps_of_resultOf hresult]
      exact hlimit m rfl
    · rintro ⟨hreturns, hle⟩
      obtain ⟨n, t, hsteps, hhalted, -, hresult⟩ := hunlimited.1 hreturns
      rw [steps_of_resultOf hresult] at hle
      exact ⟨n, t, hsteps, hhalted, by rintro _ ⟨⟩; exact hle, hresult⟩
  · have hsteps := System.steps_of_exhausted (ending_of_outcome.1 h)
    exact ⟨_, System.drive_none_of_steps hsteps, rfl⟩
  · exact System.drive_some_ne_paused hturns (ending_of_outcome.2 h)

end Machine.Emulator

open Interpreter (Session)
open Machine (Emulator)

/-- Step budgets are exact: a trace and a run of the machine under one are those without it, if these need
no more steps than it allows, and are otherwise cut off after just so many. -/
theorem budget_exact {text : List Char} (htext : ensureProgram text = .ok ()) (session : Session)
    (emulator : Emulator) (lines : List (List Char)) (input : List Int) (radius : Int) (m : Nat) :
    session.BudgetExact text input radius m ∧ emulator.BudgetExact lines input m := by
  obtain ⟨p, rfl⟩ := sentence_iff_exists_text.1 (ensureProgram_eq_ok_iff.1 htext)
  exact ⟨session.budgetExact p input radius m, emulator.budgetExact lines input m⟩

/-- Two commands come to their end under a budget of two, and two instructions leave their result. A program
whose second command moves off the tape fails there under the same budget. -/
theorem budget_exact_two :
    (Session.blank ⟨1, none⟩).trace "+.".toList [] (some 2) 0 3 =
      (Session.blank ⟨1, none⟩).trace "+.".toList [] none 0 3 ∧
    ((Session.blank ⟨2, none⟩).trace ">>".toList [] (some 2) 0 3).1.failure =
      some (.fault .beyondEnd) ∧
    ∃ result : Machine.Result, result.steps = 2 ∧
      ∃ turns, ((Emulator.ofSize 4 { stackSize := 2 } (by decide) (some 2)).runLines
        (["add rbx, 0x1", "sub byte [rbx], 0x1"].map String.toList) [] turns).1 = .ok result := by
  have hplus : ensureProgram "+.".toList = .ok () := by decide
  have hright : ensureProgram ">>".toList = .ok () := by decide
  obtain ⟨hsession, hemulator⟩ := budget_exact hplus (Session.blank ⟨1, none⟩)
    (Emulator.ofSize 4 { stackSize := 2 } (by decide) none)
    (["add rbx, 0x1", "sub byte [rbx], 0x1"].map String.toList) [] 0 2
  obtain ⟨hsession', -⟩ := budget_exact hright (Session.blank ⟨2, none⟩)
    (Emulator.ofSize 4 { stackSize := 2 } (by decide) none) [] [] 0 2
  refine ⟨?_, ?_, ?_⟩
  · have hends : (Session.blank ⟨1, none⟩).unlimited "+.".toList [] 3 = ⟨_, 2, .halted⟩ := rfl
    exact hsession.halts hends (Nat.le_refl 2) 3
  · have hends : (Session.blank ⟨2, none⟩).unlimited ">>".toList [] 3 =
      ⟨_, 1, .failed .beyondEnd⟩ := rfl
    exact ((hsession'.fails hends (by decide)).2 3 (by decide)).1
  · refine ⟨⟨#[], #[0, 255], 1, 2, none⟩, rfl, (hemulator.returns _).2 ⟨⟨3, ?_⟩, Nat.le_refl 2⟩⟩
    decide +kernel

end Brainfuck
