import Brainfuck.Proofs.Assembling
import Brainfuck.Proofs.StateInvariant

/-!
# Splicing lines

The listing of lines that are put one behind the other is made up of the listings of the two parts. The
lines may be any texts: comments, blank lines, directives, and labels that are defined more than once.

* `Listing.behind lines count` : a listing with lines and instructions in front of it
  (`ofLinesFrom_add`, `ofLines_append`);
* `target?_append`, `target?_behind` : of two definitions of a label the later one counts, and it is
  moved with its lines;
* `le_of_mem_labels`, `target?_le` : no label stands beyond the place behind the last instruction;
* `Machine.Code.target_le_of_jump` : the same of the jumps in the code of a listing;
* `pc_left_perform`, `pc_execute_le` : where one instruction leads, and where a run comes;
* `ofLines_splice` : the law of splicing.
-/

namespace Brainfuck

open Machine

/-! ## Listings -/

namespace Listing

/-- A listing with more lines in front of its own, and more instructions. -/
def behind (lines count : Nat) (listing : Listing) : Listing where
  instructions := listing.instructions.map fun x => { x with line := x.line + lines }
  labels := listing.labels.map fun entry => (entry.1, entry.2 + count)

/-- Where lines stand changes the numbers in their listing only. -/
theorem ofLinesFrom_add (line count lines more : Nat) (xs : List (List Char)) :
    ofLinesFrom (line + lines) (count + more) xs =
      (ofLinesFrom line count xs).behind lines more := by
  induction xs generalizing line count with
  | nil => rfl
  | cons text xs ih =>
    have hskip := ih (line + 1) count
    have hcounted := ih (line + 1) (count + 1)
    rw [Nat.add_right_comm] at hskip
    rw [Nat.add_right_comm line, Nat.add_right_comm count] at hcounted
    rw [ofLinesFrom, ofLinesFrom]
    cases Statement.ofLine text with
    | nothing => exact hskip
    | label name => simp only [hskip, behind, List.map_cons]
    | instruction mnemonic operands => simp only [hcounted, behind, List.map_cons]

theorem ofLines_append (xs ys : List (List Char)) :
    ofLines (xs ++ ys) =
      (ofLines xs).append ((ofLines ys).behind xs.length (ofLines xs).instructions.length) := by
  rw [ofLines, ofLinesFrom_append, ofLinesFrom_add]
  rfl

theorem target?_append (first second : Listing) (name : List Char) :
    (first.append second).target? name = (second.target? name).or (first.target? name) := by
  rw [target?, append, List.reverse_append, List.lookup_append]
  rfl

theorem lookup_map_add (entries : List (List Char × Nat)) (count : Nat) (name : List Char) :
    (entries.map fun entry => (entry.1, entry.2 + count)).lookup name =
      (entries.lookup name).map (· + count) := by
  induction entries with
  | nil => rfl
  | cons entry entries ih =>
    rw [List.map_cons, List.lookup_cons, List.lookup_cons, ih]
    split <;> rfl

theorem target?_behind (listing : Listing) (lines count : Nat) (name : List Char) :
    (listing.behind lines count).target? name = (listing.target? name).map (· + count) := by
  rw [target?, behind, ← List.map_reverse, lookup_map_add]
  rfl

/-- A label stands at the latest for the place behind the last instruction. -/
theorem le_of_mem_labels {line count : Nat} {xs : List (List Char)} :
    ∀ entry ∈ (ofLinesFrom line count xs).labels,
      entry.2 ≤ count + (ofLinesFrom line count xs).instructions.length := by
  induction xs generalizing line count with
  | nil => simp [ofLinesFrom]
  | cons text xs ih =>
    rw [ofLinesFrom]
    cases Statement.ofLine text with
    | nothing => exact ih
    | label name => exact List.forall_mem_cons.2 ⟨Nat.le_add_right _ _, ih⟩
    | instruction mnemonic operands =>
      intro entry hentry
      have := ih entry hentry
      rw [List.length_cons]
      omega

theorem target?_le {xs : List (List Char)} {name : List Char} {position : Nat}
    (h : (ofLines xs).target? name = some position) :
    position ≤ (ofLines xs).instructions.length := by
  obtain ⟨before, after, hlabels, -⟩ := List.lookup_eq_some_iff.1 h
  have hmem : (name, position) ∈ (ofLines xs).labels := by
    rw [← List.mem_reverse, hlabels]
    simp
  have := le_of_mem_labels _ hmem
  rwa [Nat.zero_add] at this

end Listing

/-! ## Jumps -/

namespace Machine

/-- A jump comes from a label that is defined. -/
theorem Action.exists_label_of_jump {furtherName : Option (List Char)}
    {target? : List Char → Option Nat} {x : Instruction} {condition : Condition} {target : Nat}
    (h : Action.ofInstruction furtherName target? x = .jump condition target) :
    ∃ name, target? name = some target := by
  unfold Action.ofInstruction at h
  split at h
  · unfold Action.ofJump at h
    split at h
    · contradiction
    · split at h
      · rename_i name _ _ _ htarget
        cases h
        exact ⟨_, htarget⟩
      · contradiction
  · unfold Action.ofOperands at h
    repeat' split at h
    all_goals contradiction

theorem Code.target_le_of_jump {xs : List (List Char)} {furtherName : Option (List Char)} {line : Nat}
    {condition : Condition} {target : Nat}
    (h : (line, .jump condition target) ∈ Code.ofListing furtherName (Listing.ofLines xs)) :
    target ≤ (Listing.ofLines xs).instructions.length := by
  rw [Code.ofListing_eq, List.mem_toArray, List.mem_map] at h
  obtain ⟨x, -, hx⟩ := h
  obtain ⟨name, hname⟩ := Action.exists_label_of_jump (Prod.mk.inj hx).2
  exact Listing.target?_le hname

namespace State

variable {s : State}

theorem pc_put (s : State) (place : Place) (value : Int) : (s.put place value).pc = s.pc := by
  cases place <;> rfl

theorem pc_systemCall (s : State) : (System.left s.systemCall).pc ≤ s.pc + 1 := by
  unfold systemCall
  split
  · unfold readInput
    dsimp only
    split
    · exact Nat.le_succ _
    · exact Nat.le_refl _
  · unfold writeOutput
    dsimp only
    split
    · exact Nat.le_succ _
    · exact Nat.le_refl _
  · exact Nat.le_refl _
  · exact Nat.le_succ _

/-- An instruction leads to the next place at most, or it jumps. -/
theorem pc_left_perform (s : State) (action : Action) :
    (System.left (s.perform action)).pc ≤ s.pc + 1 ∨
      ∃ condition target, action = .jump condition target ∧
        (System.left (s.perform action)).pc = target := by
  cases action with
  | move target source =>
    left
    rw [perform, move]
    split
    · exact Nat.le_succ _
    · split
      · exact Nat.le_succ _
      · exact Nat.le_of_eq (congrArg (· + 1) (s.pc_put _ _))
  | combine op target source =>
    left
    rw [perform, combine]
    split
    · exact Nat.le_succ _
    · split
      · exact Nat.le_succ _
      · split
        · exact Nat.le_succ _
        · exact Nat.le_of_eq (congrArg (· + 1) (pc_put _ _ _))
  | compare left right =>
    left
    rw [perform, compare]
    split
    · exact Nat.le_succ _
    · split
      · exact Nat.le_succ _
      · exact Nat.le_refl _
  | jump condition target =>
    rw [perform]
    split
    · exact .inr ⟨condition, target, rfl, rfl⟩
    · exact .inl (Nat.le_refl _)
  | systemCall => exact .inl s.pc_systemCall
  | idle => exact .inl (Nat.le_refl _)
  | refuse fault => exact .inl (Nat.le_succ _)

theorem pc_step_le {xs : List (List Char)} {furtherName : Option (List Char)}
    (h : s.pc ≤ (Listing.ofLines xs).instructions.length) :
    (System.left ((system (Code.ofListing furtherName (Listing.ofLines xs))).step s)).pc ≤
      (Listing.ofLines xs).instructions.length := by
  cases haction : (Code.ofListing furtherName (Listing.ofLines xs))[s.pc]? with
  | none =>
    simp only [system, State.step, haction]
    exact h
  | some entry =>
    obtain ⟨line, action⟩ := entry
    have hlt : s.pc < (Listing.ofLines xs).instructions.length := by
      rw [← Code.size_ofListing furtherName]
      exact (Array.getElem?_eq_some_iff.1 haction).1
    rw [left_step_eq haction]
    rcases s.pc_left_perform action with hle | ⟨condition, target, rfl, hpc⟩
    · omega
    · rw [hpc]
      exact Code.target_le_of_jump (Array.mem_of_getElem? haction)

end State

theorem Emulator.pc_execute_le (emulator : Emulator) {xs : List (List Char)} {s : State}
    (h : s.pc ≤ (Listing.ofLines xs).instructions.length) (turns : Nat) :
    (emulator.execute s (Listing.ofLines xs) turns).state.pc ≤
      (Listing.ofLines xs).instructions.length := by
  induction turns with
  | zero => exact h
  | succ turns ih =>
    exact System.drive_succ_related
      (R := fun s t => s.pc ≤ (Listing.ofLines xs).instructions.length →
        t.pc ≤ (Listing.ofLines xs).instructions.length)
      (fun _ => id) (fun _ _ => State.pc_step_le) _ turns 0 s ih

end Machine

/-! ## The law of splicing -/

/-- The listing of lines with others behind them: the instructions of the first, and then those of the
second, as many lines further down as the first have. A label stands where the second lines define it,
behind the instructions of the first, and otherwise where the first define it. No label of lines leads out
of them, and so no jump does, and no run. -/
theorem Listing.ofLines_splice (xs ys : List (List Char)) :
    (ofLines (xs ++ ys)).instructions =
      (ofLines xs).instructions ++
        (ofLines ys).instructions.map (fun x => { x with line := x.line + xs.length }) ∧
    (∀ name, (ofLines (xs ++ ys)).target? name =
      match (ofLines ys).target? name with
      | some position => some (position + (ofLines xs).instructions.length)
      | none => (ofLines xs).target? name) ∧
    (∀ name position, (ofLines xs).target? name = some position →
      position ≤ (ofLines xs).instructions.length) ∧
    (∀ furtherName line condition target,
      (line, .jump condition target) ∈ Code.ofListing furtherName (ofLines xs) →
        target ≤ (ofLines xs).instructions.length) ∧
    ∀ (emulator : Emulator) (s : State), s.pc ≤ (ofLines xs).instructions.length →
      ∀ turns, (emulator.execute s (ofLines xs) turns).state.pc ≤ (ofLines xs).instructions.length := by
  refine ⟨?_, fun name => ?_, fun name position => target?_le,
    fun furtherName line condition target => Code.target_le_of_jump,
    fun emulator s hs => emulator.pc_execute_le hs⟩
  · rw [ofLines_append]
    rfl
  · rw [ofLines_append, target?_append, target?_behind]
    cases (ofLines ys).target? name <;> rfl

/-- Both texts define one label, the first with a comment and a directive in front of its last line, which
jumps back for ever; the second ends in a label. -/
theorem Listing.ofLines_splice_redefined :
    (ofLines (["start:", "\tNOP ; one", "bits 64", "\tjmp start"].map String.toList ++
        ["start:", "; two", "\tnop", "end:"].map String.toList)).instructions.map Instruction.line =
      [2, 4, 7] ∧
    (ofLines (["start:", "\tNOP ; one", "bits 64", "\tjmp start"].map String.toList ++
        ["start:", "; two", "\tnop", "end:"].map String.toList)).target? "start".toList = some 2 ∧
    (ofLines (["start:", "\tNOP ; one", "bits 64", "\tjmp start"].map String.toList ++
        ["start:", "; two", "\tnop", "end:"].map String.toList)).target? "end".toList = some 3 ∧
    ∀ turns, ((Emulator.ofSize 2 { stackSize := 1 } (by decide) none).execute (Emulator.blank 2 [])
      (ofLines (["start:", "\tNOP ; one", "bits 64", "\tjmp start"].map String.toList)) turns).state.pc ≤
        2 := by
  obtain ⟨hinstructions, htargets, -, -, hruns⟩ := ofLines_splice
    (["start:", "\tNOP ; one", "bits 64", "\tjmp start"].map String.toList)
    (["start:", "; two", "\tnop", "end:"].map String.toList)
  refine ⟨?_, ?_, ?_, hruns _ _ (Nat.zero_le _)⟩
  · rw [hinstructions]
    decide +kernel
  · rw [htargets]
    decide +kernel
  · rw [htargets]
    decide +kernel

end Brainfuck
