import Brainfuck.Proofs.BracketMatching
import Brainfuck.Proofs.Interpretation

/-!
# What a trace shows

Any text may be traced, with any input and any budget, on a tape that has a cell.

* `strictPairsFrom?` : a search for brackets that gives up where nothing is left to close; in a text
  without a flaw it finds the pairs (`strictPairs?_eq`);
* `Config.Within` : a configuration on the tape and in the text, which every step keeps
  (`step_within`), so that only a move off the tape fails;
* `Snapshot.Shows` : what a snapshot shows of the session it is taken of (`shows_of`);
* `Session.Faithful` : the snapshots of a log show the session as it was at each of them;
* `Session.sound_succ`, `Session.sound_recording` : one more turn of a run with its log, and all turns;
* `Session.trace_sound` : the failures and the snapshots of every trace.
-/

namespace Brainfuck

open Interpreter (Code Config Failure Fault Session Settings Snapshot)

/-! ## A search that may fail -/

/-- The bracket pairs closed from position `i` on, unless a bracket closes where none is open. -/
def strictPairsFrom? : (i : Nat) → (opened : List Nat) → List Char → Option (List (Nat × Nat))
  | _, _, [] => some []
  | i, opened, '[' :: rest => strictPairsFrom? (i + 1) (i :: opened) rest
  | i, innermost :: outer, ']' :: rest =>
    (strictPairsFrom? (i + 1) outer rest).map ((innermost, i) :: ·)
  | _, [], ']' :: _ => none
  | i, opened, _ :: rest => strictPairsFrom? (i + 1) opened rest

/-- The bracket pairs of a text in which every closing bracket finds one to close. -/
def strictPairs? (text : List Char) : Option (List (Nat × Nat)) := strictPairsFrom? 0 [] text

theorem strictPairsFrom?_eq {i : Nat} {opened : List Nat} {text : List Char}
    (h : flawFrom? i opened text = none) :
    strictPairsFrom? i opened text = some (bracketPairsFrom i opened text) := by
  induction text generalizing i opened with
  | nil => simp only [strictPairsFrom?, bracketPairsFrom]
  | cons c rest ih =>
    rcases char_cases c with ⟨d, rfl⟩ | rfl | rfl | hnone
    · rw [flawFrom?_command] at h
      have hrest := ih h
      cases d <;> cases opened <;> exact hrest
    · rw [flawFrom?_open] at h
      have hrest := ih h
      cases opened <;> exact hrest
    · cases opened with
      | nil => contradiction
      | cons innermost outer =>
        have hrest : strictPairsFrom? (i + 1) outer rest = _ := ih h
        simp only [strictPairsFrom?, bracketPairsFrom, hrest, Option.map_some]
    · cases opened <;> simp [flawFrom?, hnone] at h

theorem strictPairs?_eq {text : List Char} (h : flaw? text = none) :
    strictPairs? text = some (bracketPairs text) := strictPairsFrom?_eq h

/-! ## Steps -/

/-- An operator adds a byte to the output if it writes, and otherwise nothing. -/
def Adds (op : Option Char) (before after : Array UInt8) : Prop :=
  ∃ added : Array UInt8, after = before ++ added ∧ added.size = if op = some '.' then 1 else 0

theorem adds_nothing {op : Option Char} (h : op ≠ some '.') (output : Array UInt8) :
    Adds op output output :=
  ⟨#[], by simp, by rw [if_neg h]; rfl⟩

theorem Command.adds_run {atEnd : Option UInt8} {s s' : Store} {c : Command}
    (h : c.run atEnd s = .ok s') : Adds (some c.char) s.output s'.output := by
  have hsame (hc : c ≠ .output) (hout : s'.output = s.output) :
      Adds (some c.char) s.output s'.output := by
    rw [hout]
    exact adds_nothing (fun hchar => hc (char_injective (Option.some.inj hchar))) _
  cases c <;> simp only [run] at h
  case output =>
    cases h
    exact ⟨#[s.current], by simp, rfl⟩
  case input =>
    cases h
    exact hsame (by decide) (s.read_frame atEnd).2.2.1
  case right | left =>
    split at h <;> cases h
    exact hsame (by decide) rfl
  all_goals
    cases h
    exact hsame (by decide) rfl

/-- The configuration stands on a tape of `cells` cells and not beyond the end of the text. -/
structure Interpreter.Config.Within (cells stop : Nat) (c : Config) : Prop where
  size : c.tape.size = cells
  pointer : c.pointer < cells
  pc : c.pc ≤ stop

theorem jump_le {p : Program} {pc : Nat} (h : pc < p.length) :
    (Code.ofText p.text).jump pc ≤ p.length := by
  unfold Code.jump
  split
  · rename_i target htarget
    have hback : JumpsTo p.text target pc := jumpsTo_text.2 (jumpsTo_text.1 htarget).symm
    exact (jumpsTo_iff.1 hback).1
  · exact h

/-- A step stays on the tape and in the text and adds to the output what its operator writes. It fails
only where it would move off the tape. -/
theorem step_within {p : Program} (atEnd : Option UInt8) {cells : Nat} {c : Config}
    (h : c.Within cells p.length) (running : c.pc < p.length) :
    match (Interpreter.system (Code.ofText p.text) atEnd).step c with
    | .ok d => d.Within cells p.length ∧ Adds p.text[c.pc]? c.output d.output
    | .error (f, _) => f = .beyondEnd ∨ f = .beforeStart := by
  obtain ⟨pc, tape, pointer, input, output⟩ := c
  obtain ⟨hsize, hpointer, -⟩ := h
  simp only at hsize hpointer running ⊢
  have hs : (⟨tape, pointer, input, output⟩ : Store).OnTape := by
    rw [← hsize] at hpointer
    exact hpointer
  have hchar : (Code.ofText p.text).text[pc]? = p.text[pc]? := List.getElem?_toArray ..
  have hop := List.getElem?_eq_getElem running
  generalize p.text[pc] = op at hop
  -- a bracket changes nothing but the position, which stays in the text wherever it goes on
  have hbranch (onZero : Bool) (hne : op ≠ '.') :
      match (Store.config ⟨tape, pointer, input, output⟩ pc).branch (Code.ofText p.text) onZero with
      | .ok d => d.Within cells p.length ∧ Adds (some op) output d.output
      | .error (f, _) => f = .beyondEnd ∨ f = .beforeStart := by
    rw [branch_config hs]
    refine ⟨⟨hsize, hpointer, ?_⟩, adds_nothing (fun heq => hne (Option.some.inj heq)) _⟩
    simp only [Store.config]
    split
    · exact jump_le running
    · exact running
  rw [hop]
  rcases char_cases op with ⟨command, rfl⟩ | rfl | rfl | hnone
  · have hstep : (Interpreter.system _ atEnd).step _ = _ := step_command hs (hchar.trans hop)
    simp only [Store.config] at hstep
    rw [hstep]
    cases hrun : command.run atEnd ⟨tape, pointer, input, output⟩ with
    | error f => exact Command.run_error hrun
    | ok s' =>
      obtain ⟨hon, hkeep⟩ := Command.run_onTape hrun hs
      have hcells : s'.tape.size = cells := hkeep.trans hsize
      exact ⟨⟨hcells, hcells ▸ hon, running⟩, Command.adds_run hrun⟩
  · simp only [Interpreter.system, Config.step, hchar, hop]
    exact hbranch true (by decide)
  · simp only [Interpreter.system, Config.step, hchar, hop]
    exact hbranch false (by decide)
  · simp only [Interpreter.system, Config.step, hchar, hop, Option.bind_some, hnone]
    refine ⟨⟨hsize, hpointer, running⟩, adds_nothing ?_ _⟩
    rintro ⟨⟩
    contradiction

/-! ## Snapshots -/

/-- The snapshot shows the pointer, the output and the cells around the pointer of a session, which is at
most at position `stop` of its program. -/
structure Interpreter.Snapshot.Shows (snapshot : Snapshot) (session : Session) (stop : Nat)
    (radius : Int) : Prop where
  pc : snapshot.pc ≤ stop
  size : session.tape.size = session.settings.tapeLength
  pointer : snapshot.pointer = session.pointer
  nonneg : 0 ≤ snapshot.pointer
  lt : snapshot.pointer < session.settings.tapeLength
  output : snapshot.output = session.output
  start : snapshot.window.start = max 0 (snapshot.pointer - radius)
  cells : snapshot.window.cells = session.tape.extract (max 0 (snapshot.pointer - radius)).toNat
    (min session.settings.tapeLength (snapshot.pointer + radius + 1)).toNat
  current : ∃ value, snapshot.window.cells[(snapshot.pointer - snapshot.window.start).toNat]? = some value ∧
    session.tape[snapshot.pointer.toNat]? = some value
  bytes : ∀ value ∈ snapshot.window.cells, value.toNat ≤ 255

theorem windowAround_eq {cells : Array UInt8} {center : Nat} {radius : Int} (hcenter : center < cells.size)
    (hradius : 0 ≤ radius) :
    windowAround cells center radius = ⟨max 0 (center - radius),
      cells.extract (max 0 (center - radius)).toNat
        (min (cells.size : Int) (center + radius + 1)).toNat⟩ := by
  have hposition {i : Int} (hnonneg : 0 ≤ i) (hle : i ≤ cells.size) :
      position cells.size i = i.toNat := by
    unfold position
    rw [if_neg (by omega), Nat.min_eq_left (by omega)]
  simp only [windowAround, cellsBetween]
  rw [hposition (by omega) (by omega), hposition (by omega) (by omega)]

theorem shows_of {session : Session} {c : Config} {stop : Nat} {radius : Int}
    (h : c.Within session.settings.tapeLength.toNat stop) (hradius : 0 ≤ radius) (number : Nat)
    (command : Option Char) {ending : Ending Fault} (hending : ∀ f, ending ≠ .failed f) :
    (Snapshot.of radius number command c).Shows (session.after c ending) stop radius := by
  obtain ⟨hsize, hpointer, hpc⟩ := h
  have hlength : (c.tape.size : Int) = session.settings.tapeLength := by omega
  have hlt : c.pointer < c.tape.size := by omega
  have hafter : (session.after c ending).pointer = c.pointer := by
    cases ending
    case failed f => exact absurd rfl (hending f)
    all_goals rfl
  have hwindow := windowAround_eq hlt hradius
  rw [hlength] at hwindow
  refine ⟨hpc, hlength, hafter.symm, Int.natCast_nonneg _, ?_, rfl, ?_, ?_,
    ⟨c.tape[c.pointer], ?_, ?_⟩, fun value _ => by have := value.toNat_lt; omega⟩
  · simp only [Snapshot.of, Session.after]
    omega
  · simp only [Snapshot.of, hwindow]
  · simp only [Snapshot.of, hwindow]
    rfl
  · simp only [Snapshot.of, hwindow]
    rw [Array.getElem?_extract, if_pos (by omega), ← Array.getElem?_eq_getElem hlt]
    congr 1
    omega
  · simp [Snapshot.of, Session.after, hlt]

/-! ## Logs -/

namespace Interpreter.Session

variable (session : Session) (text : List Char) (input : List Int) (limit : Option Int) (radius : Int)

/-- The output before each snapshot and after the last. -/
def outputs (snapshots : List Snapshot) : List (Array UInt8) := #[] :: snapshots.map Snapshot.output

/-- Every snapshot shows the session that has been traced up to it, with an output that goes on from the
one before. -/
def Faithful (snapshots : List Snapshot) : Prop :=
  ∀ (i : Nat) (snapshot : Snapshot), snapshots[i]? = some snapshot →
    (0 ≤ radius → snapshot.Shows (session.trace text input limit radius (i + 1)).2 text.length radius) ∧
      ∃ before, (outputs snapshots)[i]? = some before ∧ Adds snapshot.command before snapshot.output

variable {session text input limit radius}

theorem outputs_append (snapshots : List Snapshot) (snapshot : Snapshot) :
    outputs (snapshots ++ [snapshot]) = outputs snapshots ++ [snapshot.output] := by
  simp [outputs]

theorem length_outputs (snapshots : List Snapshot) :
    (outputs snapshots).length = snapshots.length + 1 := by
  simp [outputs]

theorem Faithful.concat {snapshots : List Snapshot} {snapshot : Snapshot} {before : Array UInt8}
    (h : Faithful session text input limit radius snapshots)
    (hshows : 0 ≤ radius → snapshot.Shows
      (session.trace text input limit radius (snapshots.length + 1)).2 text.length radius)
    (hbefore : (outputs snapshots)[snapshots.length]? = some before)
    (hadds : Adds snapshot.command before snapshot.output) :
    Faithful session text input limit radius (snapshots ++ [snapshot]) := by
  intro i found hi
  rw [outputs_append]
  by_cases hlt : i < snapshots.length
  · rw [List.getElem?_append_left hlt] at hi
    rw [List.getElem?_append_left (by rw [length_outputs]; omega)]
    exact h i found hi
  · have hle : i < (snapshots ++ [snapshot]).length := (List.getElem?_eq_some_iff.1 hi).1
    rw [List.length_append, List.length_singleton] at hle
    obtain rfl : i = snapshots.length := by omega
    rw [List.getElem?_concat_length] at hi
    cases hi
    rw [List.getElem?_append_left (by rw [length_outputs]; omega)]
    exact ⟨hshows, before, hbefore, hadds⟩

/-- The interpreter with a log of snapshots. -/
def recorder (code : Code) (atEnd : Option UInt8) (radius : Int) :
    System (Config × Array Snapshot) Fault :=
  (system code atEnd).observed (fun c => code.text[c.pc]?) (Snapshot.of radius)

/-- A run of a session with its log. -/
def recording (session : Session) (text : List Char) (input : List Int) (limit : Option Int)
    (radius : Int) (turns : Nat) : Run (Config × Array Snapshot) Fault :=
  (recorder (Code.ofText text) session.settings.atEnd radius).drive (stepBudget limit) turns 0
    (session.initial input, #[])

theorem trace_text (session : Session) (p : Program) (input : List Int) (limit : Option Int)
    (radius : Int) (turns : Nat) :
    session.trace p.text input limit radius (turns + 1) =
      (traceOf radius (session.recording p.text input limit radius (turns + 1)),
        session.after (session.recording p.text input limit radius (turns + 1)).state.1
          (session.recording p.text input limit radius (turns + 1)).ending) := by
  rw [trace, if_neg (Nat.succ_ne_zero turns), ensureProgram_text]
  rfl

/-- The log of a run that goes on has a snapshot of every step, and the last output is that of the
configuration. -/
structure Ongoing (session : Session) (p : Program) (steps : Nat) (c : Config) (log : Array Snapshot) :
    Prop where
  within : c.Within session.settings.tapeLength.toNat p.length
  size : log.toList.length = steps
  output : (outputs log.toList)[steps]? = some c.output

/-- What is known of a recording after some turns. -/
structure Sound (session : Session) (p : Program) (input : List Int) (limit : Option Int)
    (radius : Int) (turns : Nat) (run : Run (Config × Array Snapshot) Fault) : Prop where
  faithful : Faithful session p.text input limit radius (traceOf radius run).snapshots
  fault : ∀ f, run.ending = .failed f → f = .beyondEnd ∨ f = .beforeStart
  ongoing : run.ending = .paused →
    run.steps = turns ∧ Ongoing session p turns run.state.1 run.state.2

/-- One more turn of a recording that goes on. -/
theorem sound_succ {p : Program} {turns : Nat} {c : Config} {log : Array Snapshot}
    (hrun : session.recording p.text input limit radius turns = ⟨(c, log), turns, .paused⟩)
    (hlog : Faithful session p.text input limit radius log.toList)
    (h : Ongoing session p turns c log) :
    Sound session p input limit radius (turns + 1)
      (session.recording p.text input limit radius (turns + 1)) := by
  obtain ⟨hwithin, hsize, houtput⟩ := h
  have hmore : session.recording p.text input limit radius (turns + 1) = _ :=
    System.drive_add_of_paused hrun 1
  -- a snapshot taken now is the next one of the log
  have hconcat {d : Config} {number : Nat} {command : Option Char} {ending : Ending Fault}
      {shown : Array Snapshot}
      (hnext : session.recording p.text input limit radius (turns + 1) = ⟨(d, shown), number, ending⟩)
      (hending : ∀ f, ending ≠ .failed f)
      (hd : d.Within session.settings.tapeLength.toNat p.length) (hadds : Adds command c.output d.output) :
      Faithful session p.text input limit radius
        (log.toList ++ [Snapshot.of radius number command d]) := by
    refine hlog.concat (fun hradius => ?_) (hsize ▸ houtput) hadds
    rw [hsize, trace_text, hnext]
    exact shows_of hd hradius number command hending
  by_cases hhalted : (system (Code.ofText p.text) session.settings.atEnd).halted c = true
  · have hnext := hmore.trans (System.drive_of_halted (by exact hhalted) _ 0 _)
    have hquiet : Adds none c.output c.output := adds_nothing (by simp) _
    have hshown := hconcat hnext (by simp) hwithin hquiet
    rw [hnext]
    refine ⟨?_, fun f hf => by contradiction, fun hpaused => by contradiction⟩
    simpa only [traceOf, Array.toList_push] using hshown
  rw [Bool.not_eq_true] at hhalted
  have hrunning : c.pc < p.length := by
    simpa [system, Code.ofText] using hhalted
  by_cases hbudget : (stepBudget limit).any (· ≤ turns) = true
  · have hnext : session.recording p.text input limit radius (turns + 1) =
        ⟨(c, log), turns, .exhausted⟩ := by
      rw [hmore]
      simp [System.drive, recorder, System.observed, hhalted, hbudget]
    rw [hnext]
    exact ⟨hlog, fun f hf => by contradiction, fun hpaused => by contradiction⟩
  rw [Bool.not_eq_true] at hbudget
  have hstep := step_within session.settings.atEnd hwithin hrunning
  cases hresult : (system (Code.ofText p.text) session.settings.atEnd).step c with
  | error failure =>
    obtain ⟨f, d⟩ := failure
    have hfails : (recorder (Code.ofText p.text) session.settings.atEnd radius).step (c, log) =
        .error (f, (d, log)) := by
      simp only [recorder, System.observed, hresult]
    rw [hresult] at hstep
    have hnext := hmore.trans (System.drive_of_error (by exact hhalted) hfails hbudget 0)
    rw [hnext]
    refine ⟨hlog, fun g hg => ?_, fun hpaused => by contradiction⟩
    cases hg
    exact hstep
  | ok d =>
    have hpasses : (recorder (Code.ofText p.text) session.settings.atEnd radius).step (c, log) =
        .ok (d, log.push (Snapshot.of radius (turns + 1) p.text[c.pc]? d)) := by
      simp only [recorder, System.observed, hresult, ← hsize, Array.length_toList]
      simp [Code.ofText]
    rw [hresult] at hstep
    obtain ⟨hd, hadds⟩ := hstep
    have hnext := hmore.trans (System.drive_of_ok (by exact hhalted) hpasses hbudget 0)
    rw [System.drive_zero] at hnext
    have hshown := hconcat hnext (by simp) hd hadds
    rw [hnext]
    refine ⟨?_, fun f hf => by contradiction, fun _ => ⟨rfl, hd, ?_, ?_⟩⟩
    · simpa only [traceOf, Array.toList_push] using hshown
    · simp [← hsize]
    · rw [Array.toList_push, outputs_append, ← hsize, ← length_outputs, List.getElem?_concat_length]
      rfl

theorem sound_recording (hlen : 1 ≤ session.settings.tapeLength) (p : Program) (input : List Int)
    (limit : Option Int) (radius : Int) (turns : Nat) :
    Sound session p input limit radius turns
      (session.recording p.text input limit radius turns) := by
  induction turns with
  | zero =>
    have hinitial : (session.initial input).Within session.settings.tapeLength.toNat p.length := by
      refine ⟨Array.size_replicate, ?_, Nat.zero_le _⟩
      simp only [initial]
      omega
    exact ⟨fun i snapshot hi => by contradiction, fun f hf => by contradiction,
      fun _ => ⟨rfl, hinitial, rfl, rfl⟩⟩
  | succ turns ih =>
    generalize hrun : session.recording p.text input limit radius turns = run at ih
    obtain ⟨⟨c, log⟩, steps, ending⟩ := run
    by_cases hpaused : ending = .paused
    · subst hpaused
      obtain ⟨hsteps, hongoing⟩ := ih.ongoing rfl
      subst hsteps
      exact sound_succ hrun ih.faithful hongoing
    · have hended : (session.recording p.text input limit radius turns).ending ≠ .paused := by
        rwa [hrun]
      have hsame : session.recording p.text input limit radius (turns + 1) = _ :=
        System.drive_add_turns _ _ 1 turns _ _ hended
      rw [hsame.trans hrun]
      exact ⟨ih.faithful, ih.fault, fun h => absurd h hpaused⟩

theorem trace_of_flaw {flaw : Flaw} (h : ensureProgram text = .error flaw) (turns : Nat) :
    session.trace text input limit radius turns =
      (⟨[], if turns = 0 then none else some (.flaw flaw)⟩, session) := by
  unfold trace
  split
  · rfl
  · rw [h]

theorem faithful_trace (hlen : 1 ≤ session.settings.tapeLength) (p : Program) (turns : Nat) :
    Faithful session p.text input limit radius
      (session.trace p.text input limit radius turns).1.snapshots := by
  cases turns with
  | zero =>
    intro i snapshot hi
    contradiction
  | succ turns =>
    rw [trace_text]
    exact (sound_recording hlen p input limit radius (turns + 1)).faithful

theorem failure_trace (hlen : 1 ≤ session.settings.tapeLength) (p : Program) (turns : Nat)
    {failure : Failure}
    (h : (session.trace p.text input limit radius turns).1.failure = some failure) :
    failure = .outOfSteps ∨ failure = .fault .beyondEnd ∨ failure = .fault .beforeStart := by
  cases turns with
  | zero => contradiction
  | succ turns =>
    have hfault := (sound_recording hlen p input limit radius (turns + 1)).fault
    rw [trace_text] at h
    generalize session.recording p.text input limit radius (turns + 1) = run at h hfault
    obtain ⟨⟨c, log⟩, steps, ending⟩ := run
    cases ending with
    | halted => contradiction
    | paused => contradiction
    | exhausted =>
      cases h
      exact .inl rfl
    | failed fault =>
      cases h
      rcases hfault fault rfl with rfl | rfl
      · exact .inr (.inl rfl)
      · exact .inr (.inr rfl)

/-- A trace fails with a flaw exactly if the text has it, and then nothing has been done; otherwise for
want of steps or by a move off the tape. In a text without a flaw no bracket closes where none is open and
each has its entry in the table of jumps. Whatever snapshots there are show the session as it was. -/
theorem trace_sound {session : Session} (hlen : 1 ≤ session.settings.tapeLength) (text : List Char)
    (input : List Int) (limit : Option Int) (radius : Int) (turns : Nat) :
    (∀ failure, (session.trace text input limit radius turns).1.failure = some failure →
        (∃ flaw, failure = .flaw flaw) ∨ failure = .outOfSteps ∨ ∃ fault, failure = .fault fault ∧
          (fault.message = "Pointer moved beyond the tape length." ∨
            fault.message = "Pointer moved before start of tape.")) ∧
      (∀ flaw, (session.trace text input limit radius turns).1.failure = some (.flaw flaw) ↔
        turns ≠ 0 ∧ ensureProgram text = .error flaw) ∧
      (∀ flaw, ensureProgram text = .error flaw →
        (session.trace text input limit radius turns).1.snapshots = [] ∧
          (session.trace text input limit radius turns).2 = session) ∧
      (ensureProgram text = .ok () → strictPairs? text = some (bracketPairs text) ∧
        ∀ i, text[i]? = some '[' ∨ text[i]? = some ']' → ∃ j, JumpsTo text i j) ∧
      Faithful session text input limit radius
        (session.trace text input limit radius turns).1.snapshots := by
  cases hcheck : ensureProgram text with
  | error flaw =>
    rw [trace_of_flaw hcheck]
    refine ⟨?_, ?_, fun _ _ => ⟨rfl, rfl⟩, fun h => by contradiction, fun i snapshot hi => by contradiction⟩
    · intro failure h
      by_cases hturns : turns = 0
      · rw [if_pos hturns] at h
        contradiction
      · rw [if_neg hturns] at h
        cases h
        exact .inl ⟨flaw, rfl⟩
    · intro flaw'
      by_cases hturns : turns = 0 <;> simp [hturns]
  | ok =>
    obtain ⟨p, rfl⟩ := sentence_iff_exists_text.1 (ensureProgram_eq_ok_iff.1 hcheck)
    refine ⟨?_, ?_, fun _ h => by contradiction, fun _ => ⟨strictPairs?_eq (flaw?_eq_none_iff.2 ⟨p, rfl⟩),
      fun i => exists_jumpsTo_iff.2⟩, faithful_trace hlen p turns⟩
    · intro failure h
      rcases failure_trace hlen p turns h with rfl | rfl | rfl
      · exact .inr (.inl rfl)
      · exact .inr (.inr ⟨_, rfl, .inl rfl⟩)
      · exact .inr (.inr ⟨_, rfl, .inr rfl⟩)
    · intro flaw
      refine ⟨fun h => ?_, fun h => by simp at h⟩
      rcases failure_trace hlen p turns h with h | h | h <;> contradiction

/-- Two bytes are read and written before a third cell is missed. -/
theorem trace_sound_off_tape :
    (((Session.blank ⟨2, none⟩).trace ",[.>,]".toList [7, 8] (some 20) 1 20).1.failure =
        some (.fault .beyondEnd)) ∧
      ∃ snapshot, ((Session.blank ⟨2, none⟩).trace ",[.>,]".toList [7, 8] (some 20) 1 20).1.snapshots[2]? =
          some snapshot ∧
        snapshot.Shows ((Session.blank ⟨2, none⟩).trace ",[.>,]".toList [7, 8] (some 20) 1 3).2 6 1 ∧
        Adds (some '.') #[] snapshot.output := by
  have hlen : 1 ≤ (Session.blank ⟨2, none⟩).settings.tapeLength := by decide
  obtain ⟨-, -, -, -, hshows⟩ := trace_sound hlen ",[.>,]".toList [7, 8] (some 20) 1 20
  refine ⟨by decide +kernel, _, rfl, ?_⟩
  obtain ⟨hshown, before, hbefore, hadds⟩ := hshows 2 _ rfl
  exact ⟨hshown (by decide), by cases hbefore; exact hadds⟩

end Interpreter.Session

end Brainfuck
