import Brainfuck.Interpreter.Session
import Brainfuck.Proofs.BigStep
import Brainfuck.Proofs.Steps

/-!
# The interpreter and the structured semantics

* `Program.Sits` : a tree stands in a program text at a position, and its brackets jump to each other
  (`sits_ofText`);
* `Leads` : steps of the interpreter from one configuration to another, with the number of reads;
* `reaches_of_exec` : the interpreter does what the semantics says;
* `exec_or_steps` : the interpreter goes on for ever unless the semantics gives an outcome;
* `exists_exec_of_final`, `exec_of_halted` : where the interpreter comes to its end, so does the semantics;
* `Session.exec_of_run`, `Session.exec_of_run_error`, `Session.run_of_exec_ok`,
  `Session.run_of_exec_error` : the runs of a session are executions, and its trace shows their reads;
* `Session.run_iff_exec` : the results and the faults of a program are those of the semantics.
-/

namespace Brainfuck

open Interpreter (Code Config Fault Session Settings Snapshot)

variable {code : Code} {atEnd : Option UInt8}

/-! ## Trees in a text -/

/-- The tree stands in the text at a position, and a jump from one bracket of a loop goes behind the
other. -/
def Program.Sits (code : Code) : Program → Nat → Prop
  | done, _ => True
  | command c rest, a => code.text[a]? = some c.char ∧ rest.Sits code (a + 1)
  | loop body rest, a =>
    (code.text[a]? = some '[' ∧ code.jump a = a + body.length + 2) ∧ body.Sits code (a + 1) ∧
      (code.text[a + body.length + 1]? = some ']' ∧ code.jump (a + body.length + 1) = a + 1) ∧
      rest.Sits code (a + body.length + 2)

theorem sits_of_text {p : Program} {a : Nat}
    (htext : ∀ i < p.length, code.text[a + i]? = p.text[i]?)
    (hjump : ∀ i j, (i, j) ∈ p.pairs a → code.jump i = j + 1 ∧ code.jump j = i + 1) :
    p.Sits code a := by
  induction p generalizing a with
  | done => trivial
  | command c p ih =>
    refine ⟨by simpa [Program.text] using htext 0 (by simp), ih (fun i hi => ?_) hjump⟩
    have := htext (i + 1) (by rw [Program.length_command]; omega)
    rw [Nat.add_assoc, Nat.add_comm 1, this, Program.text, List.getElem?_cons_succ]
  | loop body p ihb ih =>
    have hpair := hjump a (a + body.length + 1) (by simp [Program.pairs])
    have hlen := Program.length_loop body p
    refine ⟨⟨by simpa [Program.text] using htext 0 (by omega), hpair.1⟩, ihb (fun i hi => ?_) ?_,
      ⟨?_, hpair.2⟩, ih (fun i hi => ?_) ?_⟩
    · have := htext (i + 1) (by omega)
      rw [Nat.add_assoc, Nat.add_comm 1, this, Program.text, List.cons_append,
        List.getElem?_cons_succ, List.getElem?_append_left hi]
    · exact fun i j h => hjump i j (by simp [Program.pairs, h])
    · have := htext (body.length + 1) (by omega)
      rw [Nat.add_assoc, this, Program.text, List.cons_append, List.getElem?_cons_succ,
        List.getElem?_append_right (Nat.le_refl _), Nat.sub_self, List.getElem?_cons_zero]
    · have := htext (body.length + 2 + i) (by omega)
      rw [show a + body.length + 2 + i = a + (body.length + 2 + i) by omega, this, Program.text,
        List.cons_append, show body.length + 2 + i = body.length + (i + 1) + 1 by omega,
        List.getElem?_cons_succ, List.getElem?_append_right (Nat.le_add_right _ _),
        Nat.add_sub_cancel_left, List.getElem?_cons_succ]
    · exact fun i j h => hjump i j (by simp [Program.pairs, h])

theorem jump_of_partner? {p : Program} {i j : Nat} (hi : i < p.length)
    (h : partner? (bracketPairs p.text) i = some j) : (Code.ofText p.text).jump i = j + 1 := by
  have : (jumpTable p.text)[i]? = some (some j) := by
    simp [jumpTable, hi, h]
  simp [Code.jump, Code.ofText, this]

theorem sits_ofText (p : Program) : p.Sits (Code.ofText p.text) 0 := by
  refine sits_of_text (fun i _ => by simp [Code.ofText]) (fun i j h => ?_)
  have hend : ∀ k, k = i ∨ k = j → k < p.length := fun k hk => by
    have : k ∈ ends (p.pairs 0) := List.mem_flatMap.2 ⟨(i, j), h, by simpa using hk⟩
    simpa using (mem_ends_pairs this).2
  obtain ⟨hi, hj⟩ := partner?_pairs h
  exact ⟨jump_of_partner? (hend i (.inl rfl)) hi, jump_of_partner? (hend j (.inr rfl)) hj⟩

/-! ## Steps of the interpreter -/

theorem running_of_char {s : Store} {pc : Nat} {c : Char} (h : code.text[pc]? = some c) :
    (Interpreter.system code atEnd).halted (s.config pc) = false := by
  obtain ⟨hlt, -⟩ := Array.getElem?_eq_some_iff.1 h
  simp only [Interpreter.system, Store.config, decide_eq_false_iff_not]
  omega

theorem step_command {s : Store} (hs : s.OnTape) {pc : Nat} {c : Command}
    (h : code.text[pc]? = some c.char) :
    (Interpreter.system code atEnd).step (s.config pc) =
      match c.run atEnd s with
      | .ok s' => .ok (s'.config (pc + 1))
      | .error f => .error (f, s.config pc) := by
  have hop : code.text[(s.config pc).pc]?.bind Operator.ofChar? = some c.operator := by
    rw [show (s.config pc).pc = pc from rfl, h]
    simp
  simp only [Interpreter.system, Config.step, hop]
  exact Command.execute_config hs c pc

/-- Where the test of a loop can stand: at its opening bracket and at its closing one. For other
programs, the place where they begin. -/
def Program.Entry : Program → Nat → Nat → Prop
  | loop body _, a, pc => pc = a ∨ pc = a + body.length + 1
  | _, a, pc => pc = a

theorem Program.Entry.start (p : Program) (a : Nat) : p.Entry a a := by
  cases p
  case loop => exact .inl rfl
  all_goals rfl

theorem branch_config {s : Store} (hs : s.OnTape) (pc : Nat) (onZero : Bool) :
    (s.config pc).branch code onZero =
      .ok (s.config (if (s.current == 0) == onZero then code.jump pc else pc + 1)) := by
  have hs' : s.pointer < s.tape.size := hs
  have hcur : s.current = s.tape[s.pointer] := by simp [Store.current, hs']
  rw [hcur]
  by_cases h : (s.tape[s.pointer] == 0) = onZero <;>
    simp [Config.branch, Store.config, Config.advance, hs', h]

/-- Both tests of a loop go behind the loop if the cell is zero and into it if it is not. -/
theorem step_loop {s : Store} (hs : s.OnTape) {body rest : Program} {a pc : Nat}
    (hsits : (Program.loop body rest).Sits code a) (hpc : (Program.loop body rest).Entry a pc) :
    (Interpreter.system code atEnd).halted (s.config pc) = false ∧
      (Interpreter.system code atEnd).step (s.config pc) =
        .ok (s.config (if s.current = 0 then a + body.length + 2 else a + 1)) := by
  obtain ⟨⟨hopen, hjump⟩, -, ⟨hclose, hback⟩, -⟩ := hsits
  rcases hpc with rfl | rfl
  · refine ⟨running_of_char hopen, ?_⟩
    have hop : code.text[(s.config pc).pc]?.bind Operator.ofChar? = some .openLoop := by
      rw [show (s.config pc).pc = pc from rfl, hopen]
      rfl
    simp only [Interpreter.system, Config.step, hop, Config.execute, branch_config hs, hjump]
    by_cases h : s.current = 0 <;> simp [h]
  · refine ⟨running_of_char hclose, ?_⟩
    have hop : code.text[(s.config (a + body.length + 1)).pc]?.bind Operator.ofChar? =
        some .closeLoop := by
      rw [show (s.config (a + body.length + 1)).pc = a + body.length + 1 from rfl, hclose]
      rfl
    simp only [Interpreter.system, Config.step, hop, Config.execute, branch_config hs, hback]
    by_cases h : s.current = 0 <;> simp [h]

def readsAt (code : Code) (c : Config) : Bool := code.text[c.pc]? == some ','

/-- Steps of the interpreter, of which `k` are reads. -/
structure Leads (code : Code) (atEnd : Option UInt8) (n k : Nat) (c d : Config) : Prop where
  steps : (Interpreter.system code atEnd).Steps n c d
  reads : ((Interpreter.system code atEnd).path n c).countP (readsAt code) = k

theorem Leads.refl (c : Config) : Leads code atEnd 0 0 c c := ⟨.refl c, rfl⟩

theorem Leads.trans {m n k l : Nat} {c d e : Config} (h : Leads code atEnd m k c d)
    (h' : Leads code atEnd n l d e) : Leads code atEnd (m + n) (k + l) c e := by
  refine ⟨h.steps.trans h'.steps, ?_⟩
  rw [h.steps.path_add, List.countP_append, h.reads, h'.reads]

theorem Leads.single {c d : Config} {op : Char}
    (running : (Interpreter.system code atEnd).halted c = false)
    (ok : (Interpreter.system code atEnd).step c = .ok d) (hop : code.text[c.pc]? = some op) :
    Leads code atEnd 1 (if op = ',' then 1 else 0) c d := by
  refine ⟨.single running ok, ?_⟩
  rw [System.path_succ_of_ok ok]
  by_cases h : op = ',' <;> simp [System.path, readsAt, hop, h]

theorem leads_command {s s' : Store} (hs : s.OnTape) {c : Command} (hc : c.run atEnd s = .ok s')
    {pc : Nat} (hop : code.text[pc]? = some c.char) :
    Leads code atEnd 1 c.reads (s.config pc) (s'.config (pc + 1)) := by
  have hreads : c.reads = if c.char = ',' then 1 else 0 := by cases c <;> rfl
  rw [hreads]
  exact .single (running_of_char hop) (by rw [step_command hs hop, hc]) hop

theorem leads_loop {s : Store} (hs : s.OnTape) {body rest : Program} {a pc : Nat}
    (hsits : (Program.loop body rest).Sits code a) (hpc : (Program.loop body rest).Entry a pc) :
    Leads code atEnd 1 0 (s.config pc)
      (s.config (if s.current = 0 then a + body.length + 2 else a + 1)) := by
  obtain ⟨running, ok⟩ : _ ∧ (Interpreter.system code atEnd).step _ = _ := step_loop hs hsits hpc
  obtain ⟨⟨hopen, -⟩, -, ⟨hclose, -⟩, -⟩ := hsits
  rcases hpc with rfl | rfl
  · exact .single running ok hopen
  · exact .single running ok hclose

/-- Where the interpreter comes with a given outcome: behind the program, or to the command that
fails. -/
def Reaches (code : Code) (atEnd : Option UInt8) (n k : Nat) (c : Config) (stop : Nat) :
    Except Fault Store → Prop
  | .ok s => Leads code atEnd n k c (s.config stop)
  | .error f => ∃ (s : Store) (pc : Nat), Leads code atEnd n k c (s.config pc) ∧
      (Interpreter.system code atEnd).halted (s.config pc) = false ∧
      (Interpreter.system code atEnd).step (s.config pc) = .error (f, s.config pc)

theorem Leads.reaches {m n k l : Nat} {c d : Config} {stop : Nat} {r : Except Fault Store}
    (h : Leads code atEnd m k c d) (h' : Reaches code atEnd n l d stop r) :
    Reaches code atEnd (m + n) (k + l) c stop r := by
  cases r with
  | ok s => exact h.trans h'
  | error f =>
    obtain ⟨s, pc, hlead, hrest⟩ := h'
    exact ⟨s, pc, h.trans hlead, hrest⟩

/-- The interpreter does what the semantics says. A loop is followed from either of its tests, since
the second and all later ones are made at the closing bracket. -/
theorem reaches_of_exec {p : Program} {s : Store} {n k : Nat} {r : Except Fault Store}
    (h : Exec atEnd p s n k r) {a pc : Nat} (hs : s.OnTape) (hsits : p.Sits code a)
    (hpc : p.Entry a pc) : Reaches code atEnd n k (s.config pc) (a + p.length) r := by
  induction h generalizing a pc with
  | done s =>
    cases hpc
    exact .refl _
  | @command c rest s s' n k r first others ih =>
    cases hpc
    have hstep := leads_command hs first hsits.1
    have hrest := ih (Command.run_onTape first hs).1 hsits.2 (.start rest (a + 1))
    rw [Nat.add_comm n 1, Program.length_command, Nat.add_comm rest.length, ← Nat.add_assoc]
    exact hstep.reaches hrest
  | @fault c rest s f first =>
    cases hpc
    exact ⟨s, a, .refl _, running_of_char hsits.1, by rw [step_command hs hsits.1, first]⟩
  | @skip body rest s n k r zero others ih =>
    have htest : Leads code atEnd 1 0 (s.config pc) _ := leads_loop hs hsits hpc
    rw [if_pos zero] at htest
    have hrest := ih hs hsits.2.2.2 (.start rest _)
    have := htest.reaches hrest
    rwa [Nat.add_comm 1 n, Nat.zero_add,
      show a + body.length + 2 + rest.length = a + (Program.loop body rest).length by
        rw [Program.length_loop]; omega] at this
  | @again body rest s s' m n k l r nonzero inside others ihb ih =>
    have htest : Leads code atEnd 1 0 (s.config pc) _ := leads_loop hs hsits hpc
    rw [if_neg nonzero] at htest
    have hbody := ihb hs hsits.2.1 (.start body _)
    have hrest := ih (inside.onTape hs rfl).1 hsits
      (.inr (show a + 1 + body.length = a + body.length + 1 by omega))
    have := htest.reaches (hbody.reaches hrest)
    rwa [Nat.zero_add, Nat.add_comm 1 (m + n)] at this
  | @escape body rest s n k f nonzero inside ih =>
    have htest : Leads code atEnd 1 0 (s.config pc) _ := leads_loop hs hsits hpc
    rw [if_neg nonzero] at htest
    obtain ⟨u, pc', hlead, hfail⟩ := ih hs hsits.2.1 (.start body _)
    have := htest.trans hlead
    rw [Nat.add_comm 1 n, Nat.zero_add] at this
    exact ⟨u, pc', this, hfail⟩

/-- For any number of steps, the semantics gives an outcome within it or the interpreter makes that
many steps. -/
theorem exec_or_steps (N : Nat) {p : Program} {s : Store} {a pc : Nat} (hs : s.OnTape)
    (hsits : p.Sits code a) (hpc : p.Entry a pc) :
    (∃ n k r, n ≤ N ∧ Exec atEnd p s n k r) ∨
      ∃ c, (Interpreter.system code atEnd).Steps N (s.config pc) c := by
  -- on the number of steps and not on the program, since a loop is followed by the same loop; each test and
  -- each command is a step
  induction N using Nat.strongRecOn generalizing p s a pc with
  | ind N ih =>
    cases p with
    | done => exact .inl ⟨0, 0, _, Nat.zero_le N, .done s⟩
    | command c rest =>
      cases hc : c.run atEnd s with
      | error f => exact .inl ⟨0, 0, _, Nat.zero_le N, .fault hc⟩
      | ok s' =>
        cases N with
        | zero => exact .inr ⟨_, .refl _⟩
        | succ N =>
          cases hpc
          have hstep := leads_command hs hc hsits.1
          rcases ih N (Nat.lt_succ_self N) (Command.run_onTape hc hs).1 hsits.2
            (.start rest (a + 1)) with ⟨n, k, r, hn, hexec⟩ | ⟨d, hsteps⟩
          · exact .inl ⟨n + 1, c.reads + k, r, by omega, .command hc hexec⟩
          · exact .inr ⟨d, by rw [Nat.add_comm N 1]; exact hstep.steps.trans hsteps⟩
    | loop body rest =>
      cases N with
      | zero => exact .inr ⟨_, .refl _⟩
      | succ N =>
        have htest : Leads code atEnd 1 0 (s.config pc) _ := leads_loop hs hsits hpc
        by_cases hcur : s.current = 0
        · rw [if_pos hcur] at htest
          rcases ih N (Nat.lt_succ_self N) hs hsits.2.2.2 (.start rest _) with
            ⟨n, k, r, hn, hexec⟩ | ⟨d, hsteps⟩
          · exact .inl ⟨n + 1, k, r, by omega, .skip hcur hexec⟩
          · exact .inr ⟨d, by rw [Nat.add_comm N 1]; exact htest.steps.trans hsteps⟩
        · rw [if_neg hcur] at htest
          rcases ih N (Nat.lt_succ_self N) hs hsits.2.1 (.start body _) with
            ⟨n, k, r, hn, hbody⟩ | ⟨d, hsteps⟩
          · cases r with
            | error f => exact .inl ⟨n + 1, k, _, by omega, .escape hcur hbody⟩
            | ok s' =>
              have hlead : Leads code atEnd n k _ _ :=
                reaches_of_exec hbody hs hsits.2.1 (.start body _)
              rcases ih (N - n) (by omega) (hbody.onTape hs rfl).1 hsits
                (.inr (show a + 1 + body.length = a + body.length + 1 by omega)) with
                ⟨m, l, r, hm, hexec⟩ | ⟨d, hsteps⟩
              · exact .inl ⟨n + m + 1, k + l, r, by omega, .again hcur hbody hexec⟩
              · refine .inr ⟨d, ?_⟩
                rw [show N + 1 = 1 + (n + (N - n)) by omega]
                exact htest.steps.trans (hlead.steps.trans hsteps)
          · exact .inr ⟨d, by rw [Nat.add_comm N 1]; exact htest.steps.trans hsteps⟩

theorem halted_config {p : Program} {s : Store} :
    (Interpreter.system (Code.ofText p.text) atEnd).halted (s.config p.length) = true := by
  simp [Interpreter.system, Code.ofText, Store.config]

section

variable {p : Program} {s : Store} {n : Nat} {c : Config}

/-- Where the interpreter comes to a final state, the semantics gives an outcome, for otherwise it would
go on. -/
theorem exists_exec_of_final (hs : s.OnTape)
    (hsteps : (Interpreter.system (Code.ofText p.text) atEnd).Steps n (s.config 0) c)
    (final : (Interpreter.system (Code.ofText p.text) atEnd).Final c) :
    ∃ m k r, Exec atEnd p s m k r ∧
      Reaches (Code.ofText p.text) atEnd m k (s.config 0) p.length r := by
  rcases exec_or_steps (n + 1) hs (sits_ofText p) (.start p 0) with ⟨m, k, r, -, hexec⟩ | ⟨d, hmore⟩
  · have hreach := reaches_of_exec hexec hs (sits_ofText p) (.start p 0)
    rw [Nat.zero_add] at hreach
    exact ⟨m, k, r, hexec, hreach⟩
  · have := hsteps.le_of_final final hmore
    omega

theorem exec_of_halted (hs : s.OnTape)
    (hsteps : (Interpreter.system (Code.ofText p.text) atEnd).Steps n (s.config 0) c)
    (hhalted : (Interpreter.system (Code.ofText p.text) atEnd).halted c = true) :
    ∃ k t, Exec atEnd p s n k (.ok t) ∧ c = t.config p.length ∧
      Leads (Code.ofText p.text) atEnd n k (s.config 0) (t.config p.length) := by
  obtain ⟨m, k, r, hexec, hreach⟩ := exists_exec_of_final hs hsteps (.inl hhalted)
  cases r with
  | error f =>
    obtain ⟨u, pc, hlead, hrunning, hfail⟩ := hreach
    exact (hsteps.not_halted_of_failed hhalted hlead.steps hrunning hfail).elim
  | ok t =>
    have hlead : Leads _ _ m k _ (t.config p.length) := hreach
    obtain ⟨rfl, rfl⟩ := hsteps.halted_unique hhalted hlead.steps halted_config
    exact ⟨k, t, hexec, rfl, hlead⟩

end

/-! ## Sessions -/

namespace Interpreter.Session

def store (session : Session) (input : List Int) : Store where
  tape := session.settings.blankTape
  pointer := 0
  input := input.map UInt8.ofInt
  output := #[]

theorem store_onTape {session : Session} (h : 1 ≤ session.settings.tapeLength) (input : List Int) :
    (session.store input).OnTape := by
  simp only [Store.OnTape, store, Settings.blankTape, Array.size_replicate]
  omega

def ending (session : Session) (s : Store) : Session where
  settings := session.settings
  tape := s.tape
  pointer := s.pointer
  output := s.output

theorem countP_trace {session : Session} {p : Program} {input : List Int} {turns n : Nat}
    {c : Config} (radius : Int)
    (h : (system (Code.ofText p.text) session.settings.atEnd).drive none turns 0
      (session.initial input) = ⟨c, n, .halted⟩) :
    (session.trace p.text input none radius turns).1.snapshots.countP
        (fun snapshot => snapshot.command == some ',') =
      ((system (Code.ofText p.text) session.settings.atEnd).path n (session.initial input)).countP
        (readsAt (Code.ofText p.text)) := by
  obtain ⟨m, log, hm, hlog, hrun⟩ :=
    System.observed_drive (system (Code.ofText p.text) session.settings.atEnd)
      (fun c => (Code.ofText p.text).text[c.pc]?) (Snapshot.of radius) Snapshot.command id
      (fun _ _ _ => rfl) none turns 0 (session.initial input) #[]
  have hturns : turns ≠ 0 := by
    rintro rfl
    cases h
  rw [h] at hm hrun
  obtain rfl : n = m := by simpa using hm
  rw [Session.trace, if_neg hturns, ensureProgram_text]
  simp only [show stepBudget none = none from rfl, hrun, traceOf]
  have hcount := congrArg (List.countP (· == some ',')) hlog
  rw [List.countP_map, List.countP_append, List.countP_map, List.countP_map] at hcount
  rw [Array.toList_push, List.countP_append]
  unfold readsAt
  simpa [Function.comp_def, Snapshot.of] using hcount

theorem drive_of_run {session : Session} {p : Program} {input : List Int} {turns : Nat}
    {output : Array UInt8} {after : Session}
    (h : session.run p.text input none turns = (.ok output, after)) :
    ∃ c n, (system (Code.ofText p.text) session.settings.atEnd).drive none turns 0
        (session.initial input) = ⟨c, n, .halted⟩ ∧
      output = c.output ∧ after = session.after c .halted := by
  generalize hrun : (system (Code.ofText p.text) session.settings.atEnd).drive none turns 0
    (session.initial input) = run
  obtain ⟨c, n, ending⟩ := run
  simp only [Session.run, ensureProgram_text, show stepBudget none = none from rfl, hrun] at h
  obtain rfl : ending = .halted := by
    cases ending <;> simp [Failure.ofEnding?] at h
    rfl
  refine ⟨c, n, rfl, ?_, (congrArg Prod.snd h).symm⟩
  simpa [Failure.ofEnding?] using (congrArg Prod.fst h).symm

/-- A run that comes to its end is an execution, and its trace shows as many reads as that has. -/
theorem exec_of_run {session : Session} {p : Program} {input : List Int} {turns : Nat}
    {output : Array UInt8} {after : Session} (hlen : 1 ≤ session.settings.tapeLength)
    (h : session.run p.text input none turns = (.ok output, after)) (radius : Int) :
    ∃ n k s, Exec session.settings.atEnd p (session.store input) n k (.ok s) ∧
      output = s.output ∧ after = session.ending s ∧
      (session.trace p.text input none radius turns).1.snapshots.countP
        (fun snapshot => snapshot.command == some ',') = k := by
  obtain ⟨c, n, hrun, rfl, rfl⟩ := drive_of_run h
  obtain ⟨hsteps, hhalted, -⟩ := System.drive_halted_iff.1 ⟨turns, hrun⟩
  obtain ⟨k, s, hexec, rfl, hlead⟩ := exec_of_halted (store_onTape hlen input) hsteps hhalted
  refine ⟨n, k, s, hexec, rfl, rfl, ?_⟩
  rw [countP_trace radius hrun]
  exact hlead.reads

theorem getLast?_trace {session : Session} {p : Program} {input : List Int} {turns n : Nat}
    {c : Config} (radius : Int)
    (h : (system (Code.ofText p.text) session.settings.atEnd).drive none turns 0
      (session.initial input) = ⟨c, n, .halted⟩) :
    (session.trace p.text input none radius turns).1.snapshots.getLast? =
      some (Snapshot.of radius n none c) := by
  obtain ⟨m, log, -, -, hrun⟩ :=
    System.observed_drive (system (Code.ofText p.text) session.settings.atEnd)
      (fun c => (Code.ofText p.text).text[c.pc]?) (Snapshot.of radius) Snapshot.command id
      (fun _ _ _ => rfl) none turns 0 (session.initial input) #[]
  have hturns : turns ≠ 0 := by
    rintro rfl
    cases h
  rw [h] at hrun
  rw [Session.trace, if_neg hturns, ensureProgram_text]
  simp only [show stepBudget none = none from rfl, hrun, traceOf, Array.toList_push,
    List.getLast?_concat]

theorem exec_of_run_error {session : Session} {p : Program} {input : List Int} {turns : Nat} {f : Fault}
    {after : Session} (hlen : 1 ≤ session.settings.tapeLength)
    (h : session.run p.text input none turns = (.error (.fault f), after)) :
    ∃ n k, Exec session.settings.atEnd p (session.store input) n k (.error f) := by
  generalize hrun : (system (Code.ofText p.text) session.settings.atEnd).drive none turns 0
    (session.initial input) = run
  obtain ⟨c, n, ending⟩ := run
  simp only [Session.run, ensureProgram_text, show stepBudget none = none from rfl, hrun] at h
  obtain rfl : ending = .failed f := by
    cases ending <;> simp [Failure.ofEnding?] at h
    rw [h.1]
  obtain ⟨d, hsteps, hrunning, hfail, -⟩ := System.drive_failed_iff.1 ⟨turns, hrun⟩
  obtain ⟨m, k, r, hexec, hreach⟩ := exists_exec_of_final (store_onTape hlen input) hsteps (.inr ⟨_, hfail⟩)
  cases r with
  | ok s =>
    have hlead : Leads _ _ m k _ (s.config p.length) := hreach
    exact (hlead.steps.not_halted_of_failed halted_config hsteps hrunning hfail).elim
  | error g =>
    obtain ⟨u, pc, hlead, -, hfail'⟩ := hreach
    obtain ⟨-, rfl⟩ := hsteps.final_unique (.inr ⟨_, hfail⟩) hlead.steps (.inr ⟨_, hfail'⟩)
    rw [hfail] at hfail'
    cases hfail'
    exact ⟨m, k, hexec⟩

theorem run_of_exec_ok {session : Session} {p : Program} {input : List Int} {n k : Nat} {s : Store}
    (hlen : 1 ≤ session.settings.tapeLength)
    (h : Exec session.settings.atEnd p (session.store input) n k (.ok s)) :
    ∃ turns, session.run p.text input none turns = (.ok s.output, session.ending s) := by
  have hlead : Leads _ _ n k _ (s.config (0 + p.length)) :=
    reaches_of_exec h (store_onTape hlen input) (sits_ofText p) (.start p 0)
  rw [Nat.zero_add] at hlead
  obtain ⟨turns, hrun⟩ := System.drive_halted_iff.2
    ⟨hlead.steps, halted_config, fun limit (hl : limit ∈ none) => by contradiction⟩
  refine ⟨turns, ?_⟩
  have hinit : session.initial input = (session.store input).config 0 := rfl
  simp only [Session.run, ensureProgram_text, show stepBudget none = none from rfl, hinit, hrun]
  rfl

theorem run_of_exec_error {session : Session} {p : Program} {input : List Int} {n k : Nat} {f : Fault}
    (hlen : 1 ≤ session.settings.tapeLength)
    (h : Exec session.settings.atEnd p (session.store input) n k (.error f)) :
    ∃ turns after, session.run p.text input none turns = (.error (.fault f), after) := by
  obtain ⟨s, pc, hlead, hrunning, hfail⟩ :=
    reaches_of_exec h (store_onTape hlen input) (sits_ofText p) (.start p 0)
  obtain ⟨turns, hrun⟩ := System.drive_failed_iff.2
    ⟨_, hlead.steps, hrunning, hfail, fun limit (hl : limit ∈ none) => by contradiction⟩
  refine ⟨turns, session.after (s.config pc) (.failed f), ?_⟩
  have hinit : session.initial input = (session.store input).config 0 := rfl
  simp only [Session.run, ensureProgram_text, show stepBudget none = none from rfl, hinit, hrun]
  rfl

/-- A text without a flaw is read as one tree. A session runs it to an end exactly as the semantics of
the tree does from a tape of zeros, and fails exactly where the semantics fails. -/
theorem run_iff_exec {session : Session} (hlen : 1 ≤ session.settings.tapeLength) {text : List Char}
    (htext : flaw? text = none) (input : List Int) :
    ∃ p : Program, p.text = text ∧ (∀ q : Program, q.text = text → q = p) ∧
      (∀ (tape : Array UInt8) (pointer : Int) (output : Array UInt8),
        (∃ turns after, session.run text input none turns = (.ok output, after) ∧ after.tape = tape ∧
            after.pointer = pointer) ↔
          ∃ n k s, Exec session.settings.atEnd p (session.store input) n k (.ok s) ∧ s.tape = tape ∧
            s.pointer = pointer ∧ s.output = output) ∧
      ∀ fault : Fault,
        (∃ turns after, session.run text input none turns = (.error (.fault fault), after)) ↔
          ∃ n k, Exec session.settings.atEnd p (session.store input) n k (.error fault) := by
  obtain ⟨p, rfl⟩ := flaw?_eq_none_iff.1 htext
  refine ⟨p, rfl, fun q hq => Program.text_injective hq, fun tape pointer output => ⟨?_, ?_⟩,
    fun fault => ⟨?_, ?_⟩⟩
  · rintro ⟨turns, after, hrun, rfl, rfl⟩
    obtain ⟨n, k, s, hexec, rfl, rfl, -⟩ := exec_of_run hlen hrun 0
    exact ⟨n, k, s, hexec, rfl, rfl, rfl⟩
  · rintro ⟨n, k, s, hexec, rfl, rfl, rfl⟩
    obtain ⟨turns, hrun⟩ := run_of_exec_ok hlen hexec
    exact ⟨turns, _, hrun, rfl, rfl⟩
  · rintro ⟨turns, after, hrun⟩
    exact exec_of_run_error hlen hrun
  · rintro ⟨n, k, hexec⟩
    exact run_of_exec_error hlen hexec

/-- A loop moves a byte to the next cell. Another one reads on, finds two stored for 258 at the end of the
input, and moves off the tape. -/
theorem run_iff_exec_move :
    (∃ p : Program, p.text = ",[>+<-]>".toList ∧ ∃ n k s,
      Exec (some 2) p ((Session.blank ⟨2, some 258⟩).store [3]) n k (.ok s) ∧ s.tape = #[0, 3] ∧
        s.pointer = 1 ∧ s.output = #[]) ∧
    ∃ p : Program, p.text = ",[>,]".toList ∧ ∃ n k,
      Exec (some 2) p ((Session.blank ⟨2, some 258⟩).store [3]) n k (.error .beyondEnd) := by
  have hlen : 1 ≤ (Session.blank ⟨2, some 258⟩).settings.tapeLength := by decide
  constructor
  · obtain ⟨p, hp, -, hok, -⟩ :=
      run_iff_exec hlen (show flaw? ",[>+<-]>".toList = none by decide) [3]
    obtain ⟨n, k, s, hexec, htape, hpointer, houtput⟩ := (hok #[0, 3] 1 #[]).1 ⟨30, _, rfl, rfl, rfl⟩
    exact ⟨p, hp, n, k, s, hexec, htape, by exact_mod_cast hpointer, houtput⟩
  · obtain ⟨p, hp, -, -, herror⟩ := run_iff_exec hlen (show flaw? ",[>,]".toList = none by decide) [3]
    exact ⟨p, hp, (herror .beyondEnd).1 ⟨30, _, rfl⟩⟩

end Interpreter.Session

end Brainfuck
