import Brainfuck.Proofs.Endpoints
import Brainfuck.Proofs.StateInvariant
import Brainfuck.Proofs.StepBudget

/-!
# The cells that a run reports

The service reports the cells around the pointer in which a run ended. The pointer need not be on the tape.
Right of it there is nothing to report; left of it, and further away than the radius, the end of the section
is negative and counts from the end of the tape, and most of the tape is reported.

* `Window.Around` : the cells of a row that are at most a radius away from a position;
* `windowAround_of_nonneg`, `windowAround_of_neg`, `around_windowAround_iff` : which sections are such windows;
* `Machine.State.size_perform`, `Machine.Emulator.size_tape` : the tape of every result has the size of the
  convention;
* `Machine.Emulator.Standard.runLines_left` : a program can end left of the tape;
* `ExecuteRequest.Leaves`, `exists_leaves` : the result behind a report;
* `executeProgram_window_iff` : which reports show the cells around the pointer;
* `run_window_iff` : the same of the responses that come through the framework.
-/

namespace Brainfuck

/-! ## Sections of a row -/

/-- A part of a row whose entries are cells of the row, no more than `radius` away from `center`. -/
structure Window.Around (window : Window) (cells : Array UInt8) (center radius : Int) : Prop where
  size : (window.cells.size : Int) ≤ 2 * radius + 1
  cells : ∀ (i : Nat) (value : UInt8), window.cells[i]? = some value →
    ∃ j : Nat, (j : Int) = window.start + i ∧ center - radius ≤ j ∧ j ≤ center + radius ∧
      cells[j]? = some value

section

variable {cells : Array UInt8} {center radius : Int}

theorem windowAround_of_nonneg (hstop : 0 ≤ center + radius + 1) :
    windowAround cells center radius = ⟨max 0 (center - radius),
      cells.extract (min (max 0 (center - radius)).toNat cells.size)
        (min (cells.size : Int) (center + radius + 1)).toNat⟩ := by
  have hstart : position cells.size (max 0 (center - radius)) =
      min (max 0 (center - radius)).toNat cells.size := if_neg (by omega)
  have hend : position cells.size (min (cells.size : Int) (center + radius + 1)) =
      (min (cells.size : Int) (center + radius + 1)).toNat := by
    unfold position
    rw [if_neg (by omega), Nat.min_eq_left (by omega)]
  simp only [windowAround, cellsBetween, hstart, hend]

theorem windowAround_of_neg (hradius : 0 ≤ radius) (hstop : center + radius + 1 < 0) :
    windowAround cells center radius =
      ⟨0, cells.extract 0 (cells.size + (center + radius + 1)).toNat⟩ := by
  have hstart : max 0 (center - radius) = 0 := by omega
  have hend : min (cells.size : Int) (center + radius + 1) = center + radius + 1 := by omega
  simp only [windowAround, cellsBetween, hstart, hend]
  rw [show position cells.size 0 = 0 by simp [position], position, if_pos hstop]

theorem around_extract {start : Int} {stop : Nat} (hradius : 0 ≤ radius) (hstart : 0 ≤ start)
    (hlow : center - radius ≤ start) (hhigh : (stop : Int) ≤ center + radius + 1) :
    Window.Around ⟨start, cells.extract (min start.toNat cells.size) stop⟩ cells center radius := by
  constructor
  · simp only [Array.size_extract]
    omega
  · intro i value hvalue
    simp only [Array.getElem?_extract] at hvalue ⊢
    split at hvalue
    · exact ⟨_, by omega, by omega, by omega, hvalue⟩
    · contradiction

/-- A section is a window around its center, unless its end is left of the row and still within its
length. -/
theorem around_windowAround_iff (cells : Array UInt8) (center : Int) (hradius : 0 ≤ radius) :
    (windowAround cells center radius).Around cells center radius ↔
      ¬(-(cells.size : Int) < center + radius + 1 ∧ center + radius + 1 < 0) := by
  by_cases hstop : 0 ≤ center + radius + 1
  · rw [windowAround_of_nonneg hstop]
    exact iff_of_true (around_extract hradius (by omega) (by omega) (by omega)) (by omega)
  · rw [windowAround_of_neg hradius (by omega)]
    generalize hlength : (cells.size + (center + radius + 1)).toNat = length
    constructor
    · rintro ⟨-, hcells⟩ ⟨hsize, -⟩
      -- the first cell of the row is reported, and is too far away
      have hlt : 0 < cells.size := by omega
      have hfirst : (cells.extract 0 length)[0]? = some cells[0] := by
        rw [Array.getElem?_extract, if_pos (by omega)]
        exact Array.getElem?_eq_getElem hlt
      obtain ⟨j, hj, -, hle, -⟩ := hcells 0 _ hfirst
      simp only at hj
      omega
    · intro h
      obtain rfl : length = 0 := by omega
      simp only [Array.extract_zero]
      exact ⟨by simp only [Array.size_empty]; omega, by simp⟩

end

/-! ## The size of the tape -/

namespace Machine.State

theorem size_systemCall (s : State) :
    (System.left s.systemCall).memory.size = s.memory.size := by
  unfold systemCall
  split
  · unfold readInput
    dsimp only
    split
    · rfl
    · exact size_writeBytes _ _ _
  · unfold writeOutput
    dsimp only
    split <;> rfl
  · rfl
  · rfl

theorem size_perform (s : State) (action : Action) :
    (System.left (s.perform action)).memory.size = s.memory.size := by
  cases action with
  | move target source => exact (s.follows_move target source).memory
  | combine op target source => exact (s.follows_combine op target source).memory
  | compare left right => exact (s.follows_compare left right).memory
  | jump condition target =>
    rw [perform]
    split <;> rfl
  | systemCall => exact s.size_systemCall
  | idle => rfl
  | refuse fault => rfl

theorem size_step (code : Code) (s : State) :
    (System.left ((system code).step s)).memory.size = s.memory.size :=
  left_step (P := fun t => t.memory.size = s.memory.size) code rfl s.size_perform

end Machine.State

namespace Machine.Emulator

variable {emulator : Emulator}

theorem size_execute (s : State) (listing : Listing) (turns : Nat) :
    (emulator.execute s listing turns).state.memory.size = s.memory.size := by
  induction turns with
  | zero => rfl
  | succ turns ih =>
    have hnext := System.drive_succ_related (R := fun s t : State => t.memory.size = s.memory.size)
      (fun _ => rfl) (fun t _ => t.size_step (Code.ofListing s.registers.furtherName listing))
      (stepBudget emulator.limit) turns 0 s
    exact hnext.trans ih

/-- Whatever lines have run, the tape of their result has the size that the convention gives it. -/
theorem size_tape {lines : List (List Char)} {input : List Int} {turns : Nat} {result : Result}
    (h : (emulator.runLines lines input turns).1 = .ok result) :
    result.tape.size = emulator.convention.stackSize.toNat := by
  obtain ⟨t, n, hrun, hresult⟩ := outcome_eq_ok h
  have hmemory : t.memory.size = emulator.memorySize := by
    have hsize := emulator.size_execute (emulator.initial input) (Listing.ofLines lines) turns
    rw [hrun] at hsize
    exact hsize.trans Array.size_replicate
  have htape : result.tape = t.memory.extract emulator.tapeBase emulator.memorySize := by
    unfold resultOf at hresult
    split at hresult
    · contradiction
    · cases hresult
      rfl
  have hroom := emulator.room
  rw [htape, Array.size_extract, hmemory, tapeBase]
  omega

section

variable {cells n turns : Nat} {lines : List (List Char)}

theorem Standard.resultOf_left (h : emulator.Standard cells) (hle : n ≤ emulator.tapeBase)
    (input : List Int) (steps : Nat) :
    emulator.resultOf ((emulator.initial input).adjust .rbx false n) steps =
      .ok ⟨#[], Array.replicate cells 0, -n, steps, none⟩ := by
  have hsize := h.memorySize_eq.1
  have hplain : ((emulator.initial input).adjust .rbx false n).registers.furtherName = none :=
    emulator.furtherName_initial_default h.convention input
  have hmemory : ((emulator.initial input).adjust .rbx false n).memory =
      Array.replicate emulator.memorySize 0 := rfl
  have hpointer : ((emulator.initial input).adjust .rbx false n).registers.get .rbx =
      emulator.tapeBase - n := by
    have hbound := h.bound
    simp only [State.adjust, h.registers_initial input, Registers.get_set, word, if_true,
      Bool.false_eq_true, if_false]
    omega
  have hcells : min emulator.memorySize emulator.memorySize - emulator.tapeBase = cells := by omega
  have hdistance : ((emulator.tapeBase - n : Nat) : Int) - emulator.tapeBase = -n := by omega
  rw [h.resultOf_eq hplain, hmemory, hpointer, Array.extract_replicate, hcells, hdistance]
  rfl

/-- A move to the left is not held up by the start of the tape. -/
theorem Standard.runLines_left (h : emulator.Standard cells) (hle : n ≤ emulator.tapeBase)
    (hholds : Holds (Code.ofListing none (Listing.ofLines lines)) .rbx .rcx 0 [.op (.shift false n)])
    (hsize : (Code.ofListing none (Listing.ofLines lines)).size = 1)
    (hlimit : ∀ limit ∈ stepBudget emulator.limit, 1 ≤ limit) (hturns : 1 < turns) (input : List Int) :
    (emulator.runLines lines input turns).1 = .ok ⟨#[], Array.replicate cells 0, -n, 1, none⟩ := by
  have hplain := emulator.furtherName_initial_default h.convention input
  have hsteps : (system (Code.ofListing none (Listing.ofLines lines))).Steps 1 (emulator.initial input)
      ((emulator.initial input).adjust .rbx false n) := hholds.1.steps rfl rfl rfl
  have hhalted : (system (Code.ofListing none (Listing.ofLines lines))).halted
      ((emulator.initial input).adjust .rbx false n) = true := by
    simp [system, hsize, State.adjust]
  have hrun : emulator.execute (emulator.initial input) (Listing.ofLines lines) turns =
      ⟨(emulator.initial input).adjust .rbx false n, 1, .halted⟩ := by
    rw [execute, hplain]
    exact System.drive_of_halts hsteps hhalted hlimit hturns
  rw [runLines, hrun]
  exact h.resultOf_left hle input 1

end

end Machine.Emulator

/-! ## Reports -/

namespace Service

open Machine
open Framework (Field readField)

/-- The program of a request leaves a result, when the default compiler has translated it and an emulator of
the default size runs the lines. -/
def ExecuteRequest.Leaves (request : ExecuteRequest) (result : Result) : Prop :=
  ∃ (lines : List (List Char)) (emulator : Emulator),
    ({} : Compiler).lineTexts request.code = .ok lines ∧
    Emulator.new none Emulator.defaultMemorySize {} (some request.maxSteps) = .ok emulator ∧
    (emulator.runLines lines (request.input.map fun c => (c.toNat : Int))
      (turnsFor (stepBudget (some request.maxSteps)) 0)).1 = .ok result

theorem ExecuteRequest.Leaves.size_tape {request : ExecuteRequest} {result : Result}
    (h : request.Leaves result) : result.tape.size = 30000 := by
  obtain ⟨lines, emulator, -, hnew, hrun⟩ := h
  obtain ⟨_, hnew', hconvention, -⟩ := new_default (some request.maxSteps)
  rw [hnew] at hnew'
  cases hnew'
  rw [Emulator.size_tape hrun, hconvention]
  rfl

theorem readField_asIntegerFrom {fields : List (String × Field)} {name : String} {least value n : Int}
    (hvalue : least ≤ value)
    (h : readField fields name (Field.asIntegerFrom least) value = .ok n) : least ≤ n := by
  unfold readField at h
  split at h
  · cases h
    exact hvalue
  · unfold Field.asIntegerFrom at h
    split at h
    · rename_i hread
      split at hread
      · split at hread
        · contradiction
        · cases hread
          cases h
          omega
      · contradiction
    · contradiction

theorem tapeWindow_of_read {body : Framework.Body} {request : ExecuteRequest}
    (h : ExecuteRequest.read body = .ok request) : 0 ≤ request.tapeWindow := by
  unfold ExecuteRequest.read at h
  split at h
  · contradiction
  · split at h
    · rename_i htapeWindow
      cases h
      exact readField_asIntegerFrom (by decide) htapeWindow
    · contradiction

theorem status_ofCompilerFailure (failure : Compiler.Failure) :
    (Answer.ofCompilerFailure failure).status ≠ 200 := by
  cases failure <;> exact nofun

theorem status_ofMachineFailure (failure : Machine.Failure) :
    (Answer.ofMachineFailure failure).status ≠ 200 := by
  unfold Answer.ofMachineFailure
  split
  · exact nofun
  · split <;> exact nofun
  · exact nofun
  · exact nofun

/-- Behind an answer with status 200 there is the result of a run. -/
theorem exists_leaves {request : ExecuteRequest} (h : (executeProgram {} request).status = 200) :
    ∃ result, request.Leaves result ∧
      executeProgram {} request = .ran (reportOf request.tapeWindow result) := by
  unfold executeProgram at h ⊢
  cases hlines : ({} : Compiler).lineTexts request.code with
  | error failure =>
    rw [hlines] at h
    exact absurd h (status_ofCompilerFailure failure)
  | ok lines =>
    obtain ⟨emulator, hnew, -⟩ := new_default (some request.maxSteps)
    simp only [hlines, hnew] at h ⊢
    cases hrun : (emulator.runLines lines (request.input.map fun c => (c.toNat : Int))
        (turnsFor (stepBudget (some request.maxSteps)) 0)).1 with
    | error failure =>
      rw [hrun] at h
      exact absurd h (status_ofMachineFailure failure)
    | ok result => exact ⟨result, ⟨lines, emulator, hlines, hnew, hrun⟩, rfl⟩

/-- What a run is answered with, if it comes to its end. The tape has its 30000 cells whatever the program was, and
the cells in the answer are those around the pointer, unless the pointer is left of the tape, further away than
the radius, but by less than the length of the tape: then they are all cells of the tape but for so many at
its end. -/
theorem executeProgram_window_iff {request : ExecuteRequest} (hradius : 0 ≤ request.tapeWindow)
    (hstatus : (executeProgram {} request).status = 200) :
    ∃ result, request.Leaves result ∧ result.tape.size = 30000 ∧
      executeProgram {} request = .ran (reportOf request.tapeWindow result) ∧
      let stop := result.pointer + request.tapeWindow + 1
      let window := (reportOf request.tapeWindow result).window
      (window.Around result.tape result.pointer request.tapeWindow ↔ ¬(-30000 < stop ∧ stop < 0)) ∧
        (stop < 0 → window = ⟨0, result.tape.extract 0 (30000 + stop).toNat⟩) := by
  obtain ⟨result, hleaves, hran⟩ := exists_leaves hstatus
  have hsize := hleaves.size_tape
  have hiff := around_windowAround_iff result.tape result.pointer hradius
  rw [hsize] at hiff
  refine ⟨result, hleaves, hsize, hran, hiff, fun hstop => ?_⟩
  rw [reportOf, windowAround_of_neg hradius hstop, hsize]
  rfl

/-- The same of the response to a request, whatever its fields were. -/
theorem run_window_iff (fields : List (String × Field))
    (hstatus : (respond {} (post "/api/run" fields)).status Answer.status = 200) :
    ∃ request result, ExecuteRequest.read (.object fields) = .ok request ∧ request.Leaves result ∧
      result.tape.size = 30000 ∧
      respond {} (post "/api/run" fields) = .handled (.ran (reportOf request.tapeWindow result)) ∧
      let stop := result.pointer + request.tapeWindow + 1
      let window := (reportOf request.tapeWindow result).window
      (window.Around result.tape result.pointer request.tapeWindow ↔ ¬(-30000 < stop ∧ stop < 0)) ∧
        (stop < 0 → window = ⟨0, result.tape.extract 0 (30000 + stop).toNat⟩) := by
  rw [respond_post_run] at hstatus ⊢
  cases hread : ExecuteRequest.read (.object fields) with
  | error found =>
    rw [hread] at hstatus
    exact absurd hstatus (show 422 ≠ 200 by decide)
  | ok request =>
    simp only [hread] at hstatus ⊢
    obtain ⟨result, hleaves, hsize, hran, hwindow⟩ :=
      executeProgram_window_iff (tapeWindow_of_read hread) hstatus
    exact ⟨request, result, rfl, hleaves, hsize, congrArg _ hran, hwindow⟩

/-! ### Left of the tape -/

/-- A program that moves two cells to the left of the tape. -/
theorem executeProgram_left (tapeWindow : Int) :
    executeProgram {} { code := joinSource "<<".toList, input := [], maxSteps := 9, tapeWindow } =
      .ran (reportOf tapeWindow ⟨#[], Array.replicate 30000 0, -2, 1, none⟩) := by
  have hlines : ({} : Compiler).lineTexts (joinSource "<<".toList) =
      .ok (((Block.batch (.row (.shift [false, false])) .done).lines {} 0).map Line.text) := by
    decide +kernel
  have hnew : Emulator.new none Emulator.defaultMemorySize {} (some 9) =
      .ok (Emulator.ofSize 1048576 {} (by decide) (some 9)) := rfl
  have hstandard : (Emulator.ofSize 1048576 {} (by decide) (some 9)).Standard 30000 :=
    ⟨rfl, by decide, by decide⟩
  have hbase : 2 ≤ (Emulator.ofSize 1048576 {} (by decide) (some 9)).tapeBase := by
    unfold Emulator.tapeBase
    decide
  obtain ⟨hholds, hsize⟩ :=
    holds_lines (Convention.names_default 30000) (.batch (.row (.shift [false, false])) .done)
  have hrun := hstandard.runLines_left hbase hholds hsize (show ∀ limit ∈ some 9, 1 ≤ limit by simp)
    (show 1 < 10 by decide) []
  simp only [executeProgram, hlines, hnew]
  rw [show turnsFor (stepBudget (some 9)) 0 = 10 from rfl, List.map_nil, hrun]
  rfl

theorem respond_run_left {tapeWindow : Int} (h : 0 ≤ tapeWindow) :
    respond {} (runRequest "<<".toList [] 9 tapeWindow) =
      .handled (.ran (reportOf tapeWindow ⟨#[], Array.replicate 30000 0, -2, 1, none⟩)) := by
  rw [respond_run _ _ _ (by decide) h, executeProgram_left]

/-- The answer to a radius of three shows the two cells that are so near. -/
theorem run_window_iff_near :
    ∃ result : Result, respond {} (runRequest "<<".toList [] 9 3) = .handled (.ran (reportOf 3 result)) ∧
      (reportOf 3 result).window.Around result.tape result.pointer 3 := by
  have hrespond := respond_run_left (show (0 : Int) ≤ 3 by decide)
  have hread := read_run "<<".toList [] (show (1 : Int) ≤ 9 by decide) (show (0 : Int) ≤ 3 by decide)
  obtain ⟨request, result, hread', -, -, hran, haround, -⟩ :=
    run_window_iff [("code", .text "<<".toList), ("input", .text []), ("max_steps", .integer 9),
      ("tape_window", .integer 3)] (congrArg (·.status Answer.status) hrespond)
  cases hread.symm.trans hread'
  have hreport := Answer.ran.inj (Framework.Response.handled.inj (hran.symm.trans hrespond))
  have hpointer : result.pointer = -2 := congrArg RunReport.pointer hreport
  refine ⟨result, hran, haround.2 ?_⟩
  rw [hpointer]
  decide

/-- With a radius of zero there is no such cell, and the answer has all cells of the tape but the last. -/
theorem run_window_left_of_tape :
    ∃ report, respond {} (runRequest "<<".toList [] 9 0) = .handled (.ran report) ∧ report.pointer = -2 ∧
      report.window = ⟨0, Array.replicate 29999 0⟩ ∧
      ∀ tape, ¬report.window.Around tape report.pointer 0 := by
  have hwindow : windowAround (Array.replicate 30000 0) (-2) 0 = ⟨0, Array.replicate 29999 0⟩ := by
    rw [windowAround_of_neg (by decide) (by decide), Array.size_replicate, Array.extract_replicate]
    rfl
  refine ⟨_, respond_run_left (by decide), rfl, hwindow, fun tape haround => ?_⟩
  have hsize := haround.size
  simp only [reportOf, hwindow, Array.size_replicate] at hsize
  omega

end Service

end Brainfuck
