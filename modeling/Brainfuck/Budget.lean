/-!
# Running with a budget

A system moves from state to state until it halts or fails. `System.drive` runs one, counting
steps, under an optional budget: the budget is looked at before each step and after the test for
halting, so a run that halts after exactly that many steps is not cut short. A run may also be
paused after a given number of turns, which makes driving total.

`System.observed` is the same system with a log of what its steps did.

Main statement: `System.drive_add_turns`, a run that has ended is not changed by further turns.
-/

namespace Brainfuck

/-- A deterministic system with states `σ` that can fail with an error `ε`. A failing step says in
which state it leaves the system. -/
structure System (σ ε : Type) where
  halted : σ → Bool
  step : σ → Except (ε × σ) σ

inductive Ending (ε : Type) where
  /-- The system halted by itself. -/
  | halted
  /-- A step failed. -/
  | failed (error : ε)
  /-- The budget was used up before the system halted. -/
  | exhausted
  /-- The run was interrupted after the allotted number of turns. -/
  | paused
  deriving DecidableEq

/-- A run: the state it ended in, the number of steps that succeeded, and how it ended. -/
structure Run (σ ε : Type) where
  state : σ
  steps : Nat
  ending : Ending ε

namespace System

variable {σ ε α β : Type}

/-- Run for at most `turns` turns from a state reached after `steps` steps. -/
def drive (system : System σ ε) (budget : Option Nat) : (turns steps : Nat) → σ → Run σ ε
  | 0, steps, s => ⟨s, steps, .paused⟩
  | turns + 1, steps, s =>
    if system.halted s then ⟨s, steps, .halted⟩
    else if budget.any (· ≤ steps) then ⟨s, steps, .exhausted⟩
    else match system.step s with
      | .error (e, s') => ⟨s', steps, .failed e⟩
      | .ok s' => drive system budget turns (steps + 1) s'

theorem drive_zero (system : System σ ε) (budget : Option Nat) (steps : Nat) (s : σ) :
    system.drive budget 0 steps s = ⟨s, steps, .paused⟩ := rfl

theorem drive_of_halted {system : System σ ε} {s : σ} (h : system.halted s = true)
    (budget : Option Nat) (turns steps : Nat) :
    system.drive budget (turns + 1) steps s = ⟨s, steps, .halted⟩ := by
  simp [drive, h]

theorem drive_of_exhausted {system : System σ ε} {s : σ} (h : system.halted s = false)
    {budget steps : Nat} (hb : budget ≤ steps) (turns : Nat) :
    system.drive (some budget) (turns + 1) steps s = ⟨s, steps, .exhausted⟩ := by
  simp [drive, h, hb]

theorem drive_of_error {system : System σ ε} {s s' : σ} {e : ε} (h : system.halted s = false)
    (hs : system.step s = .error (e, s')) {budget : Option Nat} {steps : Nat}
    (hb : budget.any (· ≤ steps) = false) (turns : Nat) :
    system.drive budget (turns + 1) steps s = ⟨s', steps, .failed e⟩ := by
  simp [drive, h, hb, hs]

theorem drive_of_ok {system : System σ ε} {s s' : σ} (h : system.halted s = false)
    (hs : system.step s = .ok s') {budget : Option Nat} {steps : Nat}
    (hb : budget.any (· ≤ steps) = false) (turns : Nat) :
    system.drive budget (turns + 1) steps s = system.drive budget turns (steps + 1) s' := by
  simp [drive, h, hb, hs]

/-- A run that has ended is not changed by further turns. -/
theorem drive_add_turns (system : System σ ε) (budget : Option Nat) (more : Nat) :
    ∀ (turns steps : Nat) (s : σ), (system.drive budget turns steps s).ending ≠ .paused →
      system.drive budget (turns + more) steps s = system.drive budget turns steps s
  | 0, _, _, h => absurd rfl h
  | turns + 1, steps, s, h => by
    rw [Nat.add_right_comm]
    unfold drive at h ⊢
    by_cases hh : system.halted s = true
    · simp [hh]
    by_cases hb : budget.any (· ≤ steps) = true
    · simp [hh, hb]
    simp only [hh, hb, Bool.false_eq_true, if_false] at h ⊢
    cases hs : system.step s with
    | error e => rfl
    | ok s' =>
      simp only [hs] at h ⊢
      exact drive_add_turns system budget more turns (steps + 1) s' h

/-- The same system with a log. Each successful step adds an entry made from a note taken before
the step and from the state after it. -/
def observed (system : System σ ε) (note : σ → β) (entry : Nat → β → σ → α) :
    System (σ × Array α) ε where
  halted := fun (s, _) => system.halted s
  step := fun (s, log) =>
    let before := note s
    match system.step s with
    | .error (e, s') => .error (e, s', log)
    | .ok s' =>
      let number := log.size + 1
      let added := entry number before s'
      .ok (s', log.push added)

end System

/-- A budget given as an integer; a negative one allows no step, as zero does. -/
def stepBudget (limit : Option Int) : Option Nat :=
  limit.map Int.toNat

/-- The number of turns after which a run under a budget has ended in any case; without a budget,
the number given. -/
def turnsFor (budget : Option Nat) (unlimited : Nat) : Nat :=
  match budget with
  | some n => n + 1
  | none => unlimited

end Brainfuck
