import Brainfuck.Interpreter.Basic
import Brainfuck.Proofs.Program
import Mathlib.Algebra.Ring.Nat

/-!
# Structured semantics

A program tree is executed on a store: the tape, the pointer, the input that is left and the output.
`Exec atEnd p s n k r` says that `p` comes from the store `s` to the outcome `r`, a store or a fault,
in `n` steps of which `k` are reads. A loop is run as long as the current cell is not zero; every test
of the cell is a step.

* `Command.run` : what a command does; only a move off the tape fails (`Command.run_error`);
* `Command.execute_config` : the interpreter executes a command as it is meant;
* `Exec.onTape`, `Exec.input`, `Exec.error` : what every execution keeps, reads and can fail with;
* `exec_after_ok`, `exec_after_ok_inv`, `exec_after_error` : programs that begin with commands.
-/

namespace Brainfuck

open Interpreter (Code Config Fault)

/-- What a program works on. -/
structure Store where
  tape : Array UInt8
  pointer : Nat
  input : List UInt8
  output : Array UInt8

namespace Store

def current (s : Store) : UInt8 := s.tape.getD s.pointer 0

def put (s : Store) (value : UInt8) : Store :=
  { s with tape := s.tape.setIfInBounds s.pointer value }

/-- Whether the pointer is on the tape. -/
def OnTape (s : Store) : Prop := s.pointer < s.tape.size

def config (s : Store) (pc : Nat) : Config :=
  ⟨pc, s.tape, s.pointer, s.input, s.output⟩

/-- Read a byte of the input into the current cell; at the end of the input, `atEnd` if there is
one. -/
def read (atEnd : Option UInt8) (s : Store) : Store :=
  match s.input with
  | value :: rest => { s with input := rest }.put value
  | [] =>
    match atEnd with
    | some value => s.put value
    | none => s

@[simp]
theorem put_pointer (s : Store) (value : UInt8) : (s.put value).pointer = s.pointer := rfl

@[simp]
theorem put_input (s : Store) (value : UInt8) : (s.put value).input = s.input := rfl

@[simp]
theorem put_output (s : Store) (value : UInt8) : (s.put value).output = s.output := rfl

@[simp]
theorem size_put (s : Store) (value : UInt8) : (s.put value).tape.size = s.tape.size := by
  simp [put]

theorem read_frame (atEnd : Option UInt8) (s : Store) :
    (s.read atEnd).pointer = s.pointer ∧ (s.read atEnd).tape.size = s.tape.size ∧
      (s.read atEnd).output = s.output ∧ (s.read atEnd).input = s.input.drop 1 := by
  unfold read
  split
  · rename_i h
    simp [h]
  · rename_i h
    cases atEnd <;> simp [h]

end Store

namespace Command

def run (atEnd : Option UInt8) (s : Store) : Command → Except Fault Store
  | right =>
    if s.pointer + 1 < s.tape.size then .ok { s with pointer := s.pointer + 1 }
    else .error .beyondEnd
  | left => if s.pointer = 0 then .error .beforeStart else .ok { s with pointer := s.pointer - 1 }
  | increment => .ok (s.put (s.current + 1))
  | decrement => .ok (s.put (s.current - 1))
  | output => .ok { s with output := s.output.push s.current }
  | input => .ok (s.read atEnd)

def reads (c : Command) : Nat := if c = .input then 1 else 0

theorem run_onTape {atEnd : Option UInt8} {s s' : Store} {c : Command} (h : c.run atEnd s = .ok s')
    (hs : s.OnTape) : s'.OnTape ∧ s'.tape.size = s.tape.size := by
  unfold Store.OnTape at hs ⊢
  cases c <;> simp only [run] at h
  case right =>
    split at h <;> cases h
    exact ⟨by assumption, rfl⟩
  case left =>
    split at h <;> cases h
    exact ⟨by simp only; omega, rfl⟩
  case input =>
    cases h
    obtain ⟨hp, ht, -⟩ := s.read_frame atEnd
    rw [hp, ht]
    exact ⟨hs, rfl⟩
  all_goals
    cases h
    simpa using hs

theorem input_run {atEnd : Option UInt8} {s s' : Store} {c : Command} (h : c.run atEnd s = .ok s') :
    s'.input = s.input.drop c.reads := by
  cases c <;> simp only [run] at h
  case input =>
    cases h
    exact (s.read_frame atEnd).2.2.2
  case right | left =>
    split at h <;> cases h
    rfl
  all_goals
    cases h
    rfl

theorem run_error {atEnd : Option UInt8} {s : Store} {c : Command} {f : Fault}
    (h : c.run atEnd s = .error f) : f = .beyondEnd ∨ f = .beforeStart := by
  cases c <;> simp only [run] at h
  case right =>
    split at h <;> cases h
    exact .inl rfl
  case left =>
    split at h <;> cases h
    exact .inr rfl
  all_goals contradiction

/-- The interpreter executes a command as it is meant. -/
theorem execute_config {code : Code} {atEnd : Option UInt8} {s : Store} (hs : s.OnTape)
    (c : Command) (pc : Nat) :
    (s.config pc).execute code atEnd c.operator =
      match c.run atEnd s with
      | .ok s' => .ok (s'.config (pc + 1))
      | .error f => .error (f, s.config pc) := by
  have hs' : s.pointer < s.tape.size := hs
  have hcur : s.current = s.tape[s.pointer] := by simp [Store.current, hs']
  cases c
  case right =>
    by_cases h : s.pointer + 1 < s.tape.size <;> simp [operator, Config.execute, run, Store.config, h]
  case left =>
    by_cases h : s.pointer = 0 <;> simp [operator, Config.execute, run, Store.config, h]
  case increment | decrement =>
    simp [operator, Config.execute, run, Store.config, Config.change, hs', hcur, Store.put,
      Array.setIfInBounds]
  case output => simp [operator, Config.execute, run, Store.config, Config.emit, hs', hcur]
  case input =>
    simp only [operator, Config.execute, run, Store.config, Config.read, Store.read]
    cases hi : s.input with
    | cons value rest => simp [Config.store, hs', Store.put, Array.setIfInBounds]
    | nil =>
      cases atEnd with
      | some value => simp [Config.store, hs', Store.put, Array.setIfInBounds, hi]
      | none => simp [Config.advance, hi]

end Command

/-- Execution of a program tree. -/
inductive Exec (atEnd : Option UInt8) :
    Program → Store → (steps reads : Nat) → Except Fault Store → Prop where
  | done (s : Store) : Exec atEnd .done s 0 0 (.ok s)
  | command {c : Command} {rest : Program} {s s' : Store} {n k : Nat} {r : Except Fault Store}
      (first : c.run atEnd s = .ok s') (others : Exec atEnd rest s' n k r) :
      Exec atEnd (.command c rest) s (n + 1) (c.reads + k) r
  | fault {c : Command} {rest : Program} {s : Store} {f : Fault} (first : c.run atEnd s = .error f) :
      Exec atEnd (.command c rest) s 0 0 (.error f)
  | skip {body rest : Program} {s : Store} {n k : Nat} {r : Except Fault Store}
      (zero : s.current = 0) (others : Exec atEnd rest s n k r) :
      Exec atEnd (.loop body rest) s (n + 1) k r
  | again {body rest : Program} {s s' : Store} {m n k l : Nat} {r : Except Fault Store}
      (nonzero : s.current ≠ 0) (inside : Exec atEnd body s m k (.ok s'))
      (others : Exec atEnd (.loop body rest) s' n l r) :
      Exec atEnd (.loop body rest) s (m + n + 1) (k + l) r
  | escape {body rest : Program} {s : Store} {n k : Nat} {f : Fault} (nonzero : s.current ≠ 0)
      (inside : Exec atEnd body s n k (.error f)) :
      Exec atEnd (.loop body rest) s (n + 1) k (.error f)

variable {atEnd : Option UInt8}

theorem Exec.onTape {p : Program} {s s' : Store} {n k : Nat} {r : Except Fault Store}
    (h : Exec atEnd p s n k r) (hs : s.OnTape) (hr : r = .ok s') :
    s'.OnTape ∧ s'.tape.size = s.tape.size := by
  induction h generalizing s' with
  | done s =>
    cases hr
    exact ⟨hs, rfl⟩
  | command first _ ih =>
    obtain ⟨h1, h2⟩ := Command.run_onTape first hs
    obtain ⟨h3, h4⟩ := ih h1 hr
    exact ⟨h3, h4.trans h2⟩
  | fault => contradiction
  | skip _ _ ih => exact ih hs hr
  | again _ _ _ ihb ih =>
    obtain ⟨h1, h2⟩ := ihb hs rfl
    obtain ⟨h3, h4⟩ := ih h1 hr
    exact ⟨h3, h4.trans h2⟩
  | escape => contradiction

/-- Execution takes as many bytes from the input as it asks for, as long as there are some. -/
theorem Exec.input {p : Program} {s s' : Store} {n k : Nat} {r : Except Fault Store}
    (h : Exec atEnd p s n k r) (hr : r = .ok s') : s'.input = s.input.drop k := by
  induction h generalizing s' with
  | done s => cases hr; rfl
  | command first _ ih => rw [ih hr, Command.input_run first, List.drop_drop]
  | fault => contradiction
  | skip _ _ ih => exact ih hr
  | again _ _ _ ihb ih => rw [ih hr, ihb rfl, List.drop_drop]
  | escape => contradiction

theorem Exec.error {p : Program} {s : Store} {n k : Nat} {r : Except Fault Store} {f : Fault}
    (h : Exec atEnd p s n k r) (hr : r = .error f) : f = .beyondEnd ∨ f = .beforeStart := by
  induction h generalizing f with
  | done => contradiction
  | command _ _ ih => exact ih hr
  | fault first =>
    cases hr
    exact Command.run_error first
  | skip _ _ ih => exact ih hr
  | again _ _ _ _ ih => exact ih hr
  | escape _ _ ih =>
    cases hr
    exact ih rfl

/-! ## Programs that begin with commands -/

def runAll (atEnd : Option UInt8) : List Command → Store → Except Fault Store
  | [], s => .ok s
  | c :: commands, s =>
    match c.run atEnd s with
    | .ok s' => runAll atEnd commands s'
    | .error f => .error f

def readsOf (commands : List Command) : Nat := (commands.map Command.reads).sum

theorem runAll_append_inv {xs ys : List Command} {s s' : Store}
    (h : runAll atEnd (xs ++ ys) s = .ok s') :
    ∃ t, runAll atEnd xs s = .ok t ∧ runAll atEnd ys t = .ok s' := by
  induction xs generalizing s with
  | nil => exact ⟨s, rfl, h⟩
  | cons c xs ih =>
    simp only [List.cons_append, runAll] at h ⊢
    cases hc : c.run atEnd s with
    | error f => rw [hc] at h; contradiction
    | ok s₁ =>
      rw [hc] at h
      exact ih h

theorem exec_after_ok {commands : List Command} {rest : Program} {s s' : Store} {n k : Nat}
    {r : Except Fault Store} (h : runAll atEnd commands s = .ok s') (hr : Exec atEnd rest s' n k r) :
    Exec atEnd (.after commands rest) s (commands.length + n) (readsOf commands + k) r := by
  induction commands generalizing s with
  | nil =>
    cases h
    simpa [readsOf] using hr
  | cons c commands ih =>
    rw [runAll] at h
    cases hc : c.run atEnd s with
    | error f => rw [hc] at h; contradiction
    | ok s₁ =>
      rw [hc] at h
      have := Exec.command hc (ih h)
      simpa [readsOf, Nat.add_assoc, Nat.add_comm, Nat.add_left_comm] using this

theorem exec_after_ok_inv {commands : List Command} {rest : Program} {s s' : Store} {n k : Nat}
    (h : Exec atEnd (.after commands rest) s n k (.ok s')) :
    ∃ t m l, runAll atEnd commands s = .ok t ∧ Exec atEnd rest t m l (.ok s') ∧
      n = commands.length + m ∧ k = readsOf commands + l := by
  induction commands generalizing s n k with
  | nil => exact ⟨s, n, k, rfl, h, by simp, by simp [readsOf]⟩
  | cons c commands ih =>
    rw [Program.after_cons] at h
    cases h with
    | command first others =>
      obtain ⟨t, m, l, ht, hrest, hn, hk⟩ := ih others
      refine ⟨t, m, l, by rw [runAll, first]; exact ht, hrest, ?_, ?_⟩
      · rw [hn, List.length_cons]
        omega
      · rw [hk, readsOf, readsOf, List.map_cons, List.sum_cons]
        omega

theorem exec_after_error {commands : List Command} {s : Store} {f : Fault}
    (h : runAll atEnd commands s = .error f) (rest : Program) :
    ∃ n k, Exec atEnd (.after commands rest) s n k (.error f) := by
  induction commands generalizing s with
  | nil => contradiction
  | cons c commands ih =>
    rw [runAll] at h
    cases hc : c.run atEnd s with
    | error g =>
      rw [hc] at h
      cases h
      exact ⟨0, 0, .fault hc⟩
    | ok s' =>
      rw [hc] at h
      obtain ⟨n, k, hrest⟩ := ih h
      exact ⟨n + 1, c.reads + k, .command hc hrest⟩

theorem runAll_onTape {commands : List Command} {s s' : Store}
    (h : runAll atEnd commands s = .ok s') (hs : s.OnTape) :
    s'.OnTape ∧ s'.tape.size = s.tape.size :=
  (exec_after_ok h (.done s')).onTape hs rfl

end Brainfuck
