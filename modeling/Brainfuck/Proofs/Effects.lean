import Brainfuck.Machine.Step
import Brainfuck.Proofs.BigStep
import Brainfuck.Proofs.Block

/-!
# What batches do to a store

* `runAll_shift`, `runAll_change` : a row has its net effect;
* `runAll_gap` : a gap moves one cell to the right and changes no other cell than that one;
* `runAll_read` : reads with gaps between them fill neighbouring cells with the next bytes of the
  input, as long as there are enough, or if a read at the end of the input does nothing and no gap
  has changes (`Fed`).
-/

namespace Brainfuck

open Codegen
open Machine (writeBytes)

variable {atEnd : Option UInt8} {s s' : Store}

theorem runAll_cons_ok {c : Command} {commands : List Command}
    (h : runAll atEnd (c :: commands) s = .ok s') :
    ∃ t, c.run atEnd s = .ok t ∧ runAll atEnd commands t = .ok s' := by
  rw [runAll] at h
  cases hc : c.run atEnd s with
  | error f => rw [hc] at h; contradiction
  | ok t =>
    rw [hc] at h
    exact ⟨t, rfl, h⟩

theorem Command.run_right (h : Command.right.run atEnd s = .ok s') :
    s.pointer + 1 < s.tape.size ∧ s' = { s with pointer := s.pointer + 1 } := by
  rw [run] at h
  split at h
  · exact ⟨by assumption, by cases h; rfl⟩
  · contradiction

theorem Command.run_left (h : Command.left.run atEnd s = .ok s') :
    s.pointer ≠ 0 ∧ s' = { s with pointer := s.pointer - 1 } := by
  rw [run] at h
  split at h
  · contradiction
  · exact ⟨by assumption, by cases h; rfl⟩

/-! ## Rows -/

theorem net_cons (up : Bool) (ups : List Bool) :
    net (up :: ups) = (if up then 1 else -1) + net ups := by
  simp [net]

theorem runAll_shift {ups : List Bool} (h : runAll atEnd (Row.shift ups).commands s = .ok s') :
    (s'.pointer : Int) = s.pointer + net ups ∧ s' = { s with pointer := s'.pointer } := by
  induction ups generalizing s with
  | nil =>
    cases h
    exact ⟨by simp [net], rfl⟩
  | cons up ups ih =>
    obtain ⟨t, hfirst, hrest⟩ := runAll_cons_ok h
    obtain ⟨hpointer, hs'⟩ := ih hrest
    rw [net_cons]
    cases up
    · obtain ⟨hne, rfl⟩ := Command.run_left hfirst
      refine ⟨?_, hs'⟩
      rw [hpointer, if_neg Bool.false_ne_true]
      simp only
      omega
    · obtain ⟨-, rfl⟩ := Command.run_right hfirst
      refine ⟨?_, hs'⟩
      rw [hpointer, if_pos rfl]
      simp only
      omega

theorem Store.current_put (hs : s.OnTape) (value : UInt8) : (s.put value).current = value := by
  have : s.pointer < s.tape.size := hs
  simp [Store.current, Store.put, this]

theorem Store.put_put (s : Store) (value value' : UInt8) :
    (s.put value).put value' = s.put value' := by
  simp [Store.put, Array.setIfInBounds_setIfInBounds]

theorem Store.put_current (hs : s.OnTape) : s.put s.current = s := by
  have hlt : s.pointer < s.tape.size := hs
  have : s.tape.setIfInBounds s.pointer s.current = s.tape := by
    simp [Store.current, hlt, Array.setIfInBounds]
  rw [Store.put, this]

theorem Store.onTape_put (hs : s.OnTape) (value : UInt8) : (s.put value).OnTape := by
  rw [OnTape, put_pointer, size_put]
  exact hs

theorem runAll_change {ups : List Bool} (hs : s.OnTape)
    (h : runAll atEnd (Row.change ups).commands s = .ok s') :
    s' = s.put (s.current + UInt8.ofInt (net ups)) := by
  induction ups generalizing s with
  | nil =>
    cases h
    rw [show UInt8.ofInt (net []) = 0 from rfl, UInt8.add_zero, Store.put_current hs]
  | cons up ups ih =>
    obtain ⟨t, hfirst, hrest⟩ := runAll_cons_ok h
    have ht : t = s.put (s.current + UInt8.ofInt (if up then 1 else -1)) := by
      cases up
      · simpa [Command.run, UInt8.sub_eq_add_neg] using hfirst.symm
      · simpa [Command.run] using hfirst.symm
    subst ht
    rw [ih (Store.onTape_put hs _) hrest, Store.put_put, Store.current_put hs, net_cons,
      UInt8.ofInt_add, UInt8.add_assoc]

/-! ## Gaps -/

/-- A gap that is already displaced moves to the next cell and changes no other: what it leaves is
not seen once that cell is overwritten. -/
theorem runAll_gapFrom {commands : List Command} {offset : Int} (hs : s.OnTape)
    (hsilent : ∀ c ∈ commands, isSilent c.char = true)
    (hgap : isGapFrom offset (commands.map Command.char) = true)
    (h : runAll atEnd commands s = .ok s') :
    (s'.pointer : Int) = s.pointer + 1 - offset ∧ s'.input = s.input ∧ s'.output = s.output ∧
      (∀ value, s'.tape.setIfInBounds s'.pointer value = s.tape.setIfInBounds s'.pointer value) ∧
      ((∀ c ∈ commands, isChange c.char = false) → s'.tape = s.tape) := by
  induction commands generalizing s offset with
  | nil =>
    cases h
    have : offset = 1 := by simpa [isGapFrom] using hgap
    exact ⟨by omega, rfl, rfl, fun _ => rfl, fun _ => rfl⟩
  | cons c commands ih =>
    obtain ⟨t, hfirst, hrest⟩ := runAll_cons_ok h
    have ht := (Command.run_onTape hfirst hs).1
    have hnext := fun offset (hgap : isGapFrom offset (commands.map Command.char) = true) =>
      ih ht (fun d hd => hsilent d (List.mem_cons_of_mem c hd)) hgap hrest
    cases c
    case right =>
      obtain ⟨-, rfl⟩ := Command.run_right hfirst
      obtain ⟨hpointer, hinput, houtput, hset, hclean⟩ := hnext (offset + 1) hgap
      refine ⟨?_, hinput, houtput, hset, fun h => hclean fun d hd => h d (List.mem_cons_of_mem _ hd)⟩
      rw [hpointer]
      simp only
      omega
    case left =>
      obtain ⟨hne, rfl⟩ := Command.run_left hfirst
      obtain ⟨hpointer, hinput, houtput, hset, hclean⟩ := hnext (offset - 1) hgap
      refine ⟨?_, hinput, houtput, hset, fun h => hclean fun d hd => h d (List.mem_cons_of_mem _ hd)⟩
      rw [hpointer]
      simp only
      omega
    case increment | decrement =>
      -- the gap has come to its cell, and the change is made there
      obtain ⟨hoffset, hgap⟩ := Bool.and_eq_true_iff.1 hgap
      have hone : offset = 1 := by simpa using hoffset
      obtain ⟨value, rfl⟩ : ∃ value, t = s.put value := by
        rw [Command.run] at hfirst
        exact ⟨_, (Except.ok.inj hfirst).symm⟩
      obtain ⟨hpointer, hinput, houtput, hset, -⟩ := hnext offset hgap
      rw [Store.put_pointer] at hpointer
      have hsame : s'.pointer = s.pointer := by omega
      refine ⟨hpointer, hinput, houtput, fun v => ?_, fun h => ?_⟩
      · rw [hset, hsame, Store.put, Array.setIfInBounds_setIfInBounds]
      · exact absurd (h _ List.mem_cons_self) (by decide)
    case output => exact absurd (hsilent _ List.mem_cons_self) (by decide)
    case input => exact absurd (hsilent _ List.mem_cons_self) (by decide)

theorem runAll_gap {gap : Gap} (hs : s.OnTape) (h : runAll atEnd gap.commands s = .ok s') :
    s'.pointer = s.pointer + 1 ∧ s'.input = s.input ∧ s'.output = s.output ∧
      (∀ value, s'.tape.setIfInBounds s'.pointer value = s.tape.setIfInBounds s'.pointer value) ∧
      ((∀ c ∈ gap.commands, isChange c.char = false) → s'.tape = s.tape) := by
  obtain ⟨hpointer, hrest⟩ := runAll_gapFrom hs gap.silent gap.fits h
  exact ⟨by omega, hrest⟩

/-! ## Reads -/

def Gap.Clean (gap : Gap) : Prop := ∀ c ∈ gap.commands, isChange c.char = false

/-- Reads that are translated together find enough input, or do not see the end of the input. -/
def Fed (atEnd : Option UInt8) (gaps : List Gap) (input : List UInt8) : Prop :=
  gaps.length + 1 ≤ input.length ∨ atEnd = none ∧ ∀ gap ∈ gaps, gap.Clean

theorem Store.tape_read (hfed : s.input ≠ [] ∨ atEnd = none) :
    (s.read atEnd).tape = writeBytes s.tape s.pointer (s.input.take 1) := by
  unfold Store.read
  split
  · rename_i h
    rw [h]
    rfl
  · rename_i h
    rcases hfed with hne | rfl
    · exact absurd h hne
    · rw [h]
      rfl

theorem writeBytes_append (memory : Array UInt8) (address : Nat) (xs ys : List UInt8) :
    writeBytes memory address (xs ++ ys) =
      writeBytes (writeBytes memory address xs) (address + xs.length) ys := by
  induction xs generalizing memory address with
  | nil => rfl
  | cons x xs ih =>
    rw [List.cons_append, writeBytes, writeBytes, ih, List.length_cons, Nat.add_assoc,
      Nat.add_comm 1]

/-- Reads with gaps between them fill neighbouring cells. -/
theorem runAll_read {gaps : List Gap} (hs : s.OnTape) (hfed : Fed atEnd gaps s.input)
    (h : runAll atEnd (Batch.read gaps).commands s = .ok s') :
    s'.pointer = s.pointer + gaps.length ∧ s'.input = s.input.drop (gaps.length + 1) ∧
      s'.output = s.output ∧
      s'.tape = writeBytes s.tape s.pointer (s.input.take (gaps.length + 1)) := by
  induction gaps generalizing s with
  | nil =>
    obtain ⟨t, hfirst, hrest⟩ := runAll_cons_ok h
    cases hrest
    cases hfirst
    have hread : s.input ≠ [] ∨ atEnd = none :=
      hfed.imp (fun h e => by simp [e] at h) And.left
    obtain ⟨hp, -, ho, hi⟩ := s.read_frame atEnd
    exact ⟨hp, hi, ho, Store.tape_read hread⟩
  | cons gap gaps ih =>
    rw [Batch.commands_read_cons] at h
    obtain ⟨t, hfirst, hothers⟩ := runAll_cons_ok h
    obtain ⟨u, hgap, hrest⟩ := runAll_append_inv hothers
    have ht := Command.run_onTape hfirst hs
    obtain rfl : s.read atEnd = t := Except.ok.inj hfirst
    obtain ⟨hp, -, ho, hi⟩ := s.read_frame atEnd
    obtain ⟨hpu, hiu, hou, hset, hclean⟩ := runAll_gap ht.1 hgap
    rw [hp] at hpu
    rw [hi] at hiu
    have hread : s.input ≠ [] ∨ atEnd = none :=
      hfed.imp (fun h e => by simp [e] at h) And.left
    have hfed' : Fed atEnd gaps u.input := by
      rw [hiu]
      refine hfed.imp (fun h => ?_) fun h => ⟨h.1, fun g hg => h.2 g (List.mem_cons_of_mem _ hg)⟩
      rw [List.length_cons] at h
      rw [List.length_drop]
      omega
    obtain ⟨hp', hi', ho', htape⟩ := ih (runAll_onTape hgap ht.1).1 hfed' hrest
    refine ⟨?_, ?_, by rw [ho', hou, ho], ?_⟩
    · rw [hp', hpu, List.length_cons]
      omega
    · rw [hi', hiu, List.drop_drop, List.length_cons, Nat.add_comm 1]
    -- what the gap leaves in the next cell is overwritten, or it leaves nothing
    have htake : s.input.take ((gap :: gaps).length + 1) =
        s.input.take 1 ++ (s.input.drop 1).take (gaps.length + 1) := by
      rw [List.length_cons, Nat.add_comm, List.take_add]
    rw [htape, hpu, hiu, htake, writeBytes_append, ← Store.tape_read hread]
    cases hrest : s.input.drop 1 with
    | nil =>
      rcases hfed with hlen | ⟨-, hall⟩
      · have := congrArg List.length hrest
        rw [List.length_drop, List.length_nil] at this
        rw [List.length_cons] at hlen
        omega
      · rw [List.take_nil]
        exact hclean (hall gap List.mem_cons_self)
    | cons value rest =>
      have hone : (s.input.take 1).length = 1 := by
        have := congrArg List.length hrest
        rw [List.length_drop, List.length_cons] at this
        rw [List.length_take]
        omega
      have hset' := hset value
      rw [hpu] at hset'
      rw [hone, List.take_succ_cons, writeBytes, writeBytes, hset']

end Brainfuck
