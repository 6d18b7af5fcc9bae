import Brainfuck.Budget

/-!
# Runs as chains of steps

* `System.Steps n s t` : `n` steps lead from `s` to `t`, none of them from a halted state
  (`Steps.trans`, `Steps.single`);
* `Steps.split` : a chain into a final state, where the system halts or fails, passes through every
  state that another chain from the same start reaches, so there is one such state and one number of
  steps to it (`Steps.final_unique`);
* `System.Through P n s t` : such steps, through states that all have a property (`Through.of_steps`);
* `System.path n s` : the states from which the first `n` steps start (`Steps.path_add`);
* `drive_of_steps`, `steps_of_drive`, `Steps.drive` : driving a system is following such a chain;
* `drive_halted_iff`, `drive_failed_iff` : the runs that end by halting and by a failed step, under
  any budget;
* `drive_succ_related`, `drive_of_halted_state` : what a further turn makes of a run, and that it makes
  nothing of one in a halted state;
* `drive_eq_of_ended` : there is one end for all numbers of turns;
* `drive_agree` : two systems whose steps agree come to the same end;
* `observed_drive` : a system with a log runs as it does without, and the log has an entry for each
  state of the path.
-/

namespace Brainfuck.System

variable {σ ε : Type} {system : System σ ε}

/-- `n` successful steps lead from one state to another, and none starts in a halted state. -/
inductive Steps (system : System σ ε) : Nat → σ → σ → Prop where
  | refl (s : σ) : Steps system 0 s s
  | step {n : Nat} {s s' t : σ} (running : system.halted s = false)
      (ok : system.step s = .ok s') (rest : Steps system n s' t) : Steps system (n + 1) s t

theorem Steps.single {s t : σ} (running : system.halted s = false)
    (ok : system.step s = .ok t) : system.Steps 1 s t :=
  .step running ok (.refl t)

theorem Steps.trans {m n : Nat} {s t u : σ} (h : system.Steps m s t) (h' : system.Steps n t u) :
    system.Steps (m + n) s u := by
  induction h with
  | refl s => rwa [Nat.zero_add]
  | step running ok _ ih =>
    rw [Nat.add_right_comm]
    exact .step running ok (ih h')

/-- No step leads on from a state: the system has halted, or its step fails. -/
def Final (system : System σ ε) (s : σ) : Prop :=
  system.halted s = true ∨ ∃ failure, system.step s = .error failure

theorem Steps.eq_of_final {n : Nat} {s t : σ} (h : system.Steps n s t) (final : system.Final s) :
    n = 0 ∧ s = t := by
  cases h with
  | refl => exact ⟨rfl, rfl⟩
  | step running ok _ =>
    rcases final with halted | ⟨failure, failed⟩
    · rw [halted] at running
      contradiction
    · rw [failed] at ok
      contradiction

/-- Chains from one state run along each other, so a chain into a final state goes on from wherever
another one has come. -/
theorem Steps.split {m n : Nat} {s t u : σ} (h : system.Steps m s t) (final : system.Final t)
    (h' : system.Steps n s u) : ∃ k, m = n + k ∧ system.Steps k u t := by
  induction h' generalizing m with
  | refl s => exact ⟨m, by omega, h⟩
  | @step n s s' u running ok rest' ih =>
    cases h with
    | refl =>
      have := (Steps.step running ok rest').eq_of_final final
      omega
    | step _ ok' rest =>
      rw [ok] at ok'
      cases ok'
      obtain ⟨k, hk, hsteps⟩ := ih rest
      exact ⟨k, by omega, hsteps⟩

/-- A system comes to one final state only, and after one number of steps. -/
theorem Steps.final_unique {m n : Nat} {s t u : σ} (h : system.Steps m s t) (ht : system.Final t)
    (h' : system.Steps n s u) (hu : system.Final u) : m = n ∧ t = u := by
  obtain ⟨k, hk, hsteps⟩ := h.split ht h'
  obtain ⟨rfl, rfl⟩ := hsteps.eq_of_final hu
  exact ⟨hk, rfl⟩

theorem Steps.halted_unique {m n : Nat} {s t u : σ} (h : system.Steps m s t)
    (ht : system.halted t = true) (h' : system.Steps n s u) (hu : system.halted u = true) :
    m = n ∧ t = u :=
  h.final_unique (.inl ht) h' (.inl hu)

/-- A chain into a state whose step fails does not also lead into a halted state. -/
theorem Steps.not_halted_of_failed {m n : Nat} {s t u u' : σ} {e : ε} (h : system.Steps m s t)
    (ht : system.halted t = true) (h' : system.Steps n s u) (running : system.halted u = false)
    (failed : system.step u = .error (e, u')) : False := by
  obtain ⟨-, rfl⟩ := h.final_unique (.inl ht) h' (.inr ⟨_, failed⟩)
  rw [ht] at running
  contradiction

/-- A chain into a final state is not shorter than another chain from the same state. -/
theorem Steps.le_of_final {m n : Nat} {s t u : σ} (h : system.Steps m s t) (ht : system.Final t)
    (h' : system.Steps n s u) : n ≤ m := by
  obtain ⟨k, hk, -⟩ := h.split ht h'
  omega

theorem Steps.exists_next {m n : Nat} {s t u : σ} (h : system.Steps m s t)
    (ht : system.halted t = true) (h' : system.Steps n s u) (running : system.halted u = false) :
    ∃ v, system.step u = .ok v := by
  obtain ⟨k, -, hrest⟩ := h.split (.inl ht) h'
  cases hrest with
  | refl =>
    rw [ht] at running
    contradiction
  | step _ ok _ => exact ⟨_, ok⟩

/-- `n` steps lead from one state to another, and all states from the first to the last have a
property. -/
inductive Through (system : System σ ε) (P : σ → Prop) : Nat → σ → σ → Prop where
  | refl {s : σ} (here : P s) : Through system P 0 s s
  | step {n : Nat} {s s' t : σ} (here : P s) (running : system.halted s = false)
      (ok : system.step s = .ok s') (rest : Through system P n s' t) : Through system P (n + 1) s t

namespace Through

variable {P : σ → Prop} {m n : Nat} {s t u : σ}

theorem steps (h : system.Through P n s t) : system.Steps n s t := by
  induction h with
  | refl => exact .refl _
  | step _ running ok _ ih => exact .step running ok ih

theorem trans (h : system.Through P m s t) (h' : system.Through P n t u) :
    system.Through P (m + n) s u := by
  induction h with
  | refl => rwa [Nat.zero_add]
  | step here running ok _ ih =>
    rw [Nat.add_right_comm]
    exact .step here running ok (ih h')

theorem last (h : system.Through P n s t) : P t := by
  induction h with
  | refl here => exact here
  | step _ _ _ _ ih => exact ih

theorem of_steps (h : system.Through P n s t) (h' : system.Steps m s u) (hle : m ≤ n) : P u := by
  induction h generalizing m with
  | refl here =>
    cases h' with
    | refl => exact here
    | step => omega
  | step here _ ok _ ih =>
    cases h' with
    | refl => exact here
    | step _ ok' rest =>
      rw [ok] at ok'
      cases ok'
      exact ih rest (by omega)

end Through

/-- The states from which the first `n` steps from a state start, up to the first that fails. -/
def path (system : System σ ε) : Nat → σ → List σ
  | 0, _ => []
  | n + 1, s =>
    s :: match system.step s with
      | .ok s' => path system n s'
      | .error _ => []

theorem path_succ_of_ok {s s' : σ} (ok : system.step s = .ok s') (n : Nat) :
    system.path (n + 1) s = s :: system.path n s' := by
  rw [path, ok]

theorem Steps.path_add {m : Nat} {s t : σ} (h : system.Steps m s t) (n : Nat) :
    system.path (m + n) s = system.path m s ++ system.path n t := by
  induction h with
  | refl s => rw [Nat.zero_add]; rfl
  | step _ ok _ ih =>
    rw [Nat.add_right_comm, path_succ_of_ok ok, path_succ_of_ok ok, ih, List.cons_append]

/-! ## Driving -/

/-- A budget that is large enough for `steps` more steps does not end the run before them. -/
theorem drive_of_steps {n : Nat} {s t : σ} (h : system.Steps n s t) {budget : Option Nat}
    {steps : Nat} (hb : ∀ limit ∈ budget, steps + n ≤ limit) (turns : Nat) :
    system.drive budget (n + turns) steps s = system.drive budget turns (steps + n) t := by
  induction h generalizing steps with
  | refl s => rw [Nat.zero_add, Nat.add_zero]
  | @step n s s' t running ok _ ih =>
    have hopen : budget.any (· ≤ steps) = false := by
      cases budget with
      | none => rfl
      | some limit =>
        have := hb limit rfl
        simp only [Option.any_some, decide_eq_false_iff_not]
        omega
    rw [Nat.add_right_comm, drive_of_ok running ok hopen,
      ih (fun limit hl => by have := hb limit hl; omega)]
    congr 1
    omega

/-- A run follows a chain of steps up to the state in which it ended. -/
theorem steps_of_drive {budget : Option Nat} {turns steps : Nat} {s : σ} {run : Run σ ε}
    (h : system.drive budget turns steps s = run) :
    ∃ n u, system.Steps n s u ∧ run.steps = steps + n ∧ (∀ limit ∈ budget, n = 0 ∨ run.steps ≤ limit) ∧
      match run.ending with
      | .halted => system.halted u = true ∧ run.state = u
      | .failed e => system.halted u = false ∧ system.step u = .error (e, run.state) ∧
          budget.any (· ≤ run.steps) = false
      | .exhausted => system.halted u = false ∧ budget.any (· ≤ run.steps) = true ∧ run.state = u
      | .paused => n = turns ∧ run.state = u := by
  induction turns generalizing steps s with
  | zero =>
    subst h
    exact ⟨0, s, .refl s, rfl, fun _ _ => .inl rfl, rfl, rfl⟩
  | succ turns ih =>
    unfold drive at h
    by_cases hh : system.halted s = true
    · rw [if_pos hh] at h
      subst h
      exact ⟨0, s, .refl s, rfl, fun _ _ => .inl rfl, hh, rfl⟩
    rw [if_neg hh] at h
    rw [Bool.not_eq_true] at hh
    by_cases hb : budget.any (· ≤ steps) = true
    · rw [if_pos hb] at h
      subst h
      exact ⟨0, s, .refl s, rfl, fun _ _ => .inl rfl, hh, hb, rfl⟩
    rw [if_neg hb] at h
    rw [Bool.not_eq_true] at hb
    cases hs : system.step s with
    | error failure =>
      obtain ⟨e, s'⟩ := failure
      rw [hs] at h
      subst h
      exact ⟨0, s, .refl s, rfl, fun _ _ => .inl rfl, hh, hs, hb⟩
    | ok s' =>
      rw [hs] at h
      obtain ⟨n, u, hsteps, hn, hlimit, hend⟩ := ih h
      refine ⟨n + 1, u, .step hh hs hsteps, by omega, fun limit hl => .inr ?_, ?_⟩
      · cases hl
        simp only [Option.any_some, decide_eq_false_iff_not, Nat.not_le] at hb
        have := hlimit limit rfl
        omega
      · cases hr : run.ending <;> simp only [hr] at hend ⊢
        case paused => exact ⟨by omega, hend.2⟩
        all_goals exact hend

theorem drive_halted_iff {budget : Option Nat} {s t : σ} {n : Nat} :
    (∃ turns, system.drive budget turns 0 s = ⟨t, n, .halted⟩) ↔
      system.Steps n s t ∧ system.halted t = true ∧ ∀ limit ∈ budget, n ≤ limit := by
  constructor
  · rintro ⟨turns, h⟩
    obtain ⟨m, u, hsteps, hm, hlimit, hu, rfl⟩ := steps_of_drive h
    obtain rfl : n = m := by simpa using hm
    refine ⟨hsteps, hu, fun limit hl => ?_⟩
    have : n = 0 ∨ n ≤ limit := hlimit limit hl
    omega
  · rintro ⟨hsteps, halted, hlimit⟩
    refine ⟨n + 1, ?_⟩
    rw [drive_of_steps hsteps (by simpa using hlimit), drive_of_halted halted, Nat.zero_add]

theorem drive_failed_iff {budget : Option Nat} {s t : σ} {n : Nat} {e : ε} :
    (∃ turns, system.drive budget turns 0 s = ⟨t, n, .failed e⟩) ↔
      ∃ u, system.Steps n s u ∧ system.halted u = false ∧ system.step u = .error (e, t) ∧
        ∀ limit ∈ budget, n < limit := by
  constructor
  · rintro ⟨turns, h⟩
    obtain ⟨m, u, hsteps, hm, -, hu, hfail, hb⟩ := steps_of_drive h
    obtain rfl : n = m := by simpa using hm
    refine ⟨u, hsteps, hu, hfail, ?_⟩
    rintro limit rfl
    simpa using hb
  · rintro ⟨u, hsteps, hu, hfail, hlimit⟩
    have hopen : budget.any (· ≤ 0 + n) = false := by
      cases budget with
      | none => rfl
      | some limit => simpa using hlimit limit rfl
    refine ⟨n + 1, ?_⟩
    rw [drive_of_steps hsteps (fun limit hl => by have := hlimit limit hl; omega),
      drive_of_error hu hfail hopen, Nat.zero_add]

/-- A run on the way to a halted state has come to a state on this way, under any budget. -/
theorem Steps.drive {budget : Option Nat} {n : Nat} {s t : σ} (h : system.Steps n s t)
    (ht : system.halted t = true) (turns : Nat) :
    ∃ m ≤ n, system.Steps m s (system.drive budget turns 0 s).state := by
  obtain ⟨m, u, hsteps, -, -, hend⟩ := steps_of_drive (rfl : _ = system.drive budget turns 0 s)
  have hle := h.le_of_final (.inl ht) hsteps
  refine ⟨m, hle, ?_⟩
  cases hending : (system.drive budget turns 0 s).ending with
  | failed e =>
    rw [hending] at hend
    exact (h.not_halted_of_failed ht hsteps hend.1 hend.2.1).elim
  | halted =>
    rw [hending] at hend
    rwa [hend.2]
  | exhausted =>
    rw [hending] at hend
    rwa [hend.2.2]
  | paused =>
    rw [hending] at hend
    rwa [hend.2]

/-! ## Longer runs -/

/-- The state in which a step leaves the system, also if it fails. -/
def left : Except (ε × σ) σ → σ
  | .ok s => s
  | .error (_, s) => s

/-- A paused run goes on from where it was paused. -/
theorem drive_add_of_paused {budget : Option Nat} {turns steps k : Nat} {s t : σ}
    (h : system.drive budget turns steps s = ⟨t, k, .paused⟩) (more : Nat) :
    system.drive budget (turns + more) steps s = system.drive budget more k t := by
  obtain ⟨n, u, hsteps, hk, hlimit, rfl, rfl⟩ := steps_of_drive h
  obtain rfl : k = steps + n := hk
  cases hn : n with
  | zero =>
    subst hn
    cases hsteps
    rw [Nat.zero_add, Nat.add_zero]
  | succ m =>
    rw [← hn]
    refine drive_of_steps hsteps (fun limit hl => ?_) more
    have : n = 0 ∨ steps + n ≤ limit := hlimit limit hl
    omega

/-- What holds of a state and of what a step leaves of it holds of a run and of the run for one more
turn. -/
theorem drive_succ_related {R : σ → σ → Prop} (hrefl : ∀ s, R s s)
    (hstep : ∀ s, system.halted s = false → R s (left (system.step s))) (budget : Option Nat)
    (turns steps : Nat) (s : σ) :
    R (system.drive budget turns steps s).state (system.drive budget (turns + 1) steps s).state := by
  by_cases hpaused : (system.drive budget turns steps s).ending = .paused
  · rw [drive_add_of_paused (t := (system.drive budget turns steps s).state)
      (k := (system.drive budget turns steps s).steps) (by rw [← hpaused]) 1]
    generalize (system.drive budget turns steps s).state = t
    generalize (system.drive budget turns steps s).steps = k
    rw [drive]
    split
    · exact hrefl t
    · rename_i hrunning
      have h := hstep t (by simpa using hrunning)
      split
      · exact hrefl t
      · cases hnext : system.step t with
        | ok u =>
          rw [hnext] at h
          exact h
        | error failure =>
          rw [hnext] at h
          exact h
  · rw [drive_add_turns system budget 1 turns steps s hpaused]
    exact hrefl _

theorem drive_of_halted_state {budget : Option Nat} {turns steps : Nat} {s : σ}
    (h : system.halted (system.drive budget turns steps s).state = true) (more : Nat) :
    (system.drive budget (turns + more) steps s).state = (system.drive budget turns steps s).state ∧
      (system.drive budget (turns + more) steps s).steps =
        (system.drive budget turns steps s).steps := by
  by_cases hpaused : (system.drive budget turns steps s).ending = .paused
  · rw [drive_add_of_paused (t := (system.drive budget turns steps s).state)
      (k := (system.drive budget turns steps s).steps) (by rw [← hpaused]) more]
    cases more with
    | zero => exact ⟨rfl, rfl⟩
    | succ more =>
      rw [drive_of_halted h]
      exact ⟨rfl, rfl⟩
  · rw [drive_add_turns system budget more turns steps s hpaused]
    exact ⟨rfl, rfl⟩

/-- Runs from one state that have ended have ended alike. -/
theorem drive_eq_of_ended {budget : Option Nat} {turns turns' steps : Nat} {s : σ}
    (h : (system.drive budget turns steps s).ending ≠ .paused)
    (h' : (system.drive budget turns' steps s).ending ≠ .paused) :
    system.drive budget turns steps s = system.drive budget turns' steps s := by
  rw [← drive_add_turns system budget turns' turns steps s h, Nat.add_comm,
    drive_add_turns system budget turns turns' steps s h']

/-! ## Two systems -/

/-- Two steps succeed in states that are related, or fail with the same error. -/
inductive Agree {τ : Type} (R : σ → τ → Prop) : Except (ε × σ) σ → Except (ε × τ) τ → Prop where
  | ok {s : σ} {t : τ} (h : R s t) : Agree R (.ok s) (.ok t)
  | error (e : ε) (s : σ) (t : τ) : Agree R (.error (e, s)) (.error (e, t))

theorem Agree.imp {τ : Type} {R R' : σ → τ → Prop} {x : Except (ε × σ) σ} {y : Except (ε × τ) τ}
    (h : Agree R x y) (hR : ∀ s t, R s t → R' s t) : Agree R' x y := by
  cases h with
  | ok h => exact .ok (hR _ _ h)
  | error e s t => exact .error e s t

/-- Two systems whose steps agree come to the same end, in related states if they halt. -/
theorem drive_agree {τ : Type} {system' : System τ ε} {R : σ → τ → Prop}
    (hhalted : ∀ {s t}, R s t → system.halted s = system'.halted t)
    (hstep : ∀ {s t}, R s t → system.halted s = false → Agree R (system.step s) (system'.step t))
    (budget : Option Nat) (turns steps : Nat) {s : σ} {t : τ} (h : R s t) :
    (system.drive budget turns steps s).steps = (system'.drive budget turns steps t).steps ∧
      (system.drive budget turns steps s).ending = (system'.drive budget turns steps t).ending ∧
      ((system.drive budget turns steps s).ending = .halted →
        R (system.drive budget turns steps s).state (system'.drive budget turns steps t).state) := by
  induction turns generalizing steps s t with
  | zero => exact ⟨rfl, rfl, fun h => by contradiction⟩
  | succ turns ih =>
    unfold drive
    rw [← hhalted h]
    by_cases hh : system.halted s = true
    · rw [if_pos hh, if_pos hh]
      exact ⟨rfl, rfl, fun _ => h⟩
    rw [if_neg hh, if_neg hh]
    rw [Bool.not_eq_true] at hh
    by_cases hb : budget.any (· ≤ steps) = true
    · rw [if_pos hb, if_pos hb]
      exact ⟨rfl, rfl, fun h => by contradiction⟩
    rw [if_neg hb, if_neg hb]
    have hnext := hstep h hh
    generalize system.step s = x at hnext
    generalize system'.step t = y at hnext
    cases hnext with
    | ok h' => exact ih (steps + 1) h'
    | error e s' t' => exact ⟨rfl, rfl, fun h => by contradiction⟩

/-! ## Observation -/

/-- Observing a system does not change its run. What an entry shows of the note taken for it is shown
of every state of the path, in order. -/
theorem observed_drive {α β γ : Type} (system : System σ ε) (note : σ → β)
    (entry : Nat → β → σ → α) (view : α → γ) (shown : β → γ)
    (hview : ∀ number before after, view (entry number before after) = shown before)
    (budget : Option Nat) (turns steps : Nat) (s : σ) (log : Array α) :
    ∃ (n : Nat) (log' : Array α), (system.drive budget turns steps s).steps = steps + n ∧
      log'.toList.map view = log.toList.map view ++ (system.path n s).map (shown ∘ note) ∧
      (system.observed note entry).drive budget turns steps (s, log) =
        ⟨((system.drive budget turns steps s).state, log'), (system.drive budget turns steps s).steps,
          (system.drive budget turns steps s).ending⟩ := by
  induction turns generalizing steps s log with
  | zero => exact ⟨0, log, rfl, by simp [path], rfl⟩
  | succ turns ih =>
    by_cases hh : system.halted s = true
    · refine ⟨0, log, ?_, by simp [path], ?_⟩ <;> simp [drive, observed, hh]
    by_cases hb : budget.any (· ≤ steps) = true
    · refine ⟨0, log, ?_, by simp [path], ?_⟩ <;> simp [drive, observed, hh, hb]
    cases hs : system.step s with
    | error failure =>
      refine ⟨0, log, ?_, by simp [path], ?_⟩ <;> simp [drive, observed, hh, hb, hs]
    | ok s' =>
      obtain ⟨n, log', hn, hlog, hrun⟩ :=
        ih (steps + 1) s' (log.push (entry (log.size + 1) (note s) s'))
      have hd : system.drive budget (turns + 1) steps s = system.drive budget turns (steps + 1) s' := by
        simp [drive, hh, hb, hs]
      have ho : (system.observed note entry).drive budget (turns + 1) steps (s, log) =
          (system.observed note entry).drive budget turns (steps + 1)
            (s', log.push (entry (log.size + 1) (note s) s')) := by
        simp [drive, observed, hh, hb, hs]
      refine ⟨n + 1, log', by rw [hd]; omega, ?_, by rw [ho, hrun, hd]⟩
      rw [hlog, path_succ_of_ok hs]
      simp [hview]

end Brainfuck.System
