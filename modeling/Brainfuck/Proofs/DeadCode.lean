import Brainfuck.Proofs.Generation
import Brainfuck.Proofs.Interpretation
import Brainfuck.Proofs.Matching

/-!
# Programs without instructions

A program for which no lines are generated does nothing, wherever it comes to its end. So a loop around
it is left by its test only if it is not entered at all, and such a loop can be dropped.

* `Batch.runAll_of_code_eq_nil` : a batch without instructions keeps the store;
* `not_exec_loop` : a loop whose body keeps the store is never left once it is entered;
* `Block.exec_of_code_eq_nil` : a block without instructions keeps the store;
* `endless_or_fails` : a program without an end runs for ever or moves off the tape;
* `drive_of_generate_eq_nil` : what the interpreter makes of such a program, and of a loop around it.
-/

namespace Brainfuck

open Codegen
open Interpreter (Code Config Fault system)

variable {atEnd : Option UInt8} {s s' : Store} {n k : Nat}

/-! ## Executions -/

theorem adjustment_eq_nil {make : Bool → Nat → Opcode} {delta : Int} {amount : Nat}
    (h : adjustment make delta amount = []) : amount = 0 := by
  by_contra hne
  rw [adjustment, if_neg hne] at h
  contradiction

theorem Batch.runAll_of_code_eq_nil {b : Batch} (h : b.code = []) (hs : s.OnTape)
    (hrun : runAll atEnd b.commands s = .ok s') : s' = s := by
  cases b with
  | row r =>
    cases r with
    | change ups =>
      have hamount : (net ups).natAbs % 256 = 0 := adjustment_eq_nil h
      rw [runAll_change hs hrun, ofInt_eq_zero hamount, UInt8.add_zero, Store.put_current hs]
    | shift ups =>
      have hnet : (net ups).natAbs = 0 := adjustment_eq_nil h
      obtain ⟨hpointer, hs'⟩ := runAll_shift hrun
      have : s'.pointer = s.pointer := by omega
      rw [hs', this]
  | print gaps => contradiction
  | read gaps => contradiction

/-- Once a loop is entered whose body keeps the store, its test finds the same cell again and again. -/
theorem not_exec_loop {body rest : Program}
    (hbody : ∀ {m l t}, Exec atEnd body s m l (.ok t) → t = s) (nonzero : s.current ≠ 0) :
    ¬ Exec atEnd (.loop body rest) s n k (.ok s') := by
  induction n using Nat.strongRecOn generalizing k with
  | ind n ih =>
    intro h
    cases h with
    | skip zero _ => exact nonzero zero
    | again _ inside others =>
      obtain rfl := hbody inside
      exact ih _ (by omega) others

theorem Block.exec_of_code_eq_nil {b : Block} (h : b.code = []) (hs : s.OnTape)
    (hexec : Exec atEnd b.program s n k (.ok s')) : s' = s := by
  induction b generalizing s s' n k with
  | done =>
    cases hexec
    rfl
  | batch b rest ih =>
    obtain ⟨hb, hrest⟩ := List.append_eq_nil_iff.1 h
    obtain ⟨t, m, l, hrun, hothers, -⟩ := exec_after_ok_inv hexec
    obtain rfl := Batch.runAll_of_code_eq_nil (List.map_eq_nil_iff.1 hb) hs hrun
    exact ih hrest hs hothers
  | loop body rest ihb ih =>
    obtain ⟨hloop, hrest⟩ := List.append_eq_nil_iff.1 h
    have hbody := loopCode_eq_nil hloop
    by_cases hzero : s.current = 0
    · cases hexec with
      | skip _ others => exact ih hrest hs others
      | again nonzero _ _ => exact absurd hzero nonzero
    · exact (not_exec_loop (fun hinside => ihb hbody hs hinside) hzero hexec).elim

/-! ## Runs -/

section

variable {p body : Program}

theorem not_halted_of_not_exec (hs : s.OnTape) (h : ∀ n k t, ¬ Exec atEnd p s n k (.ok t))
    (budget : Option Nat) (turns : Nat) :
    ((system (Code.ofText p.text) atEnd).drive budget turns 0 (s.config 0)).ending ≠ .halted := by
  intro hended
  obtain ⟨n, c, hsteps, -, -, hend⟩ := System.steps_of_drive (rfl : _ =
    (system (Code.ofText p.text) atEnd).drive budget turns 0 (s.config 0))
  rw [hended] at hend
  obtain ⟨k, t, hexec, -⟩ := exec_of_halted hs hsteps hend.1
  exact h n k t hexec

/-- Where the semantics comes to no end, the interpreter runs for ever or moves off the tape. -/
theorem endless_or_fails (hs : s.OnTape) (h : ∀ n k t, ¬ Exec atEnd p s n k (.ok t)) :
    (∀ turns, ((system (Code.ofText p.text) atEnd).drive none turns 0 (s.config 0)).ending = .paused) ∨
      ∃ turns f, ((system (Code.ofText p.text) atEnd).drive none turns 0 (s.config 0)).ending = .failed f ∧
        (f = .beyondEnd ∨ f = .beforeStart) := by
  have hnone : ∀ {m : Nat}, ∀ limit ∈ (none : Option Nat), m ≤ limit := fun limit hl => by contradiction
  by_cases hfails : ∃ n k f, Exec atEnd p s n k (.error f)
  · obtain ⟨n, k, f, hexec⟩ := hfails
    obtain ⟨u, pc, hlead, hrunning, hfail⟩ := reaches_of_exec hexec hs (sits_ofText p) (.start p 0)
    obtain ⟨turns, hrun⟩ := System.drive_failed_iff.2 ⟨_, hlead.steps, hrunning, hfail, hnone⟩
    exact .inr ⟨turns, f, by rw [hrun], hexec.error rfl⟩
  · refine .inl fun turns => ?_
    rcases exec_or_steps turns hs (sits_ofText p) (.start p 0) with ⟨n, k, r, -, hexec⟩ | ⟨c, hsteps⟩
    · cases r with
      | ok t => exact (h n k t hexec).elim
      | error f => exact (hfails ⟨n, k, f, hexec⟩).elim
    · have hrun := System.drive_of_steps hsteps (hnone (m := 0 + turns)) 0
      rw [Nat.add_zero] at hrun
      rw [hrun, System.drive_zero]

theorem drive_loop_of_zero (hs : s.OnTape) (zero : s.current = 0) (turns : Nat) :
    (system (Code.ofText (Program.loop body .done).text) atEnd).drive none (turns + 2) 0 (s.config 0) =
      ⟨s.config (Program.loop body .done).length, 1, .halted⟩ := by
  have hlead : Leads _ atEnd 1 0 (s.config 0) (s.config _) :=
    leads_loop hs (sits_ofText (.loop body .done)) (.inl rfl)
  rw [if_pos zero, show 0 + body.length + 2 = (Program.loop body .done).length by simp; rfl] at hlead
  rw [show turns + 2 = 1 + (turns + 1) by omega,
    System.drive_of_steps hlead.steps (fun limit (hl : limit ∈ none) => by contradiction),
    System.drive_of_halted halted_config]

end

/-- A text for which no lines are generated is the program of a block without instructions. -/
theorem exists_block_of_generate_eq_nil {convention : Convention} {text : List Char}
    (htext : flaw? text = none) (hnil : ({ convention } : Generator).generate text = .ok []) :
    ∃ b : Block, b.program.text = text ∧ b.code = [] := by
  obtain ⟨p, rfl⟩ := flaw?_eq_none_iff.1 htext
  obtain ⟨b, rfl, hgen, -⟩ := exists_block (show ({ convention } : Generator).rules = _ from rfl) p
  have hlines := hgen.generate
  rw [hnil] at hlines
  exact ⟨b, rfl, (b.lines_eq_nil_iff convention 0).1 (Except.ok.inj hlines).symm⟩

/-- A text for which no lines are generated leaves the interpreter where it was, if it comes to an end.
So a loop around it does not come to an end if the cell is not zero, but runs for ever or moves off the
tape, and if the cell is zero it changes nothing. -/
theorem drive_of_generate_eq_nil {convention : Convention} {text : List Char}
    (htext : flaw? text = none) (hnil : ({ convention } : Generator).generate text = .ok [])
    (atEnd : Option UInt8) {tape : Array UInt8} {pointer : Nat} (onTape : pointer < tape.size)
    (input : List UInt8) (output : Array UInt8) :
    (∀ budget turns n c, (system (Code.ofText text) atEnd).drive budget turns 0
        ⟨0, tape, pointer, input, output⟩ = ⟨c, n, .halted⟩ →
      c = ⟨text.length, tape, pointer, input, output⟩) ∧
    (tape[pointer] ≠ 0 →
      (∀ budget turns, ((system (Code.ofText ('[' :: text ++ [']'])) atEnd).drive budget turns 0
        ⟨0, tape, pointer, input, output⟩).ending ≠ .halted) ∧
      ((∀ turns, ((system (Code.ofText ('[' :: text ++ [']'])) atEnd).drive none turns 0
          ⟨0, tape, pointer, input, output⟩).ending = .paused) ∨
        ∃ turns f, ((system (Code.ofText ('[' :: text ++ [']'])) atEnd).drive none turns 0
          ⟨0, tape, pointer, input, output⟩).ending = .failed f ∧
            (f = .beyondEnd ∨ f = .beforeStart))) ∧
    (tape[pointer] = 0 → ∀ turns,
      (system (Code.ofText ('[' :: text ++ [']'])) atEnd).drive none (turns + 2) 0
        ⟨0, tape, pointer, input, output⟩ =
          ⟨⟨text.length + 2, tape, pointer, input, output⟩, 1, .halted⟩) := by
  obtain ⟨b, rfl, hcode⟩ := exists_block_of_generate_eq_nil htext hnil
  obtain ⟨s, rfl, rfl, rfl, rfl⟩ : ∃ s : Store, s.tape = tape ∧ s.pointer = pointer ∧
    s.input = input ∧ s.output = output := ⟨⟨tape, pointer, input, output⟩, rfl, rfl, rfl, rfl⟩
  have hcurrent : s.tape[s.pointer] = s.current := by simp [Store.current, onTape]
  have hloop : '[' :: b.program.text ++ [']'] = (Program.loop b.program .done).text := rfl
  have hlength : (Program.loop b.program .done).length = b.program.text.length + 2 := by simp; rfl
  have hs : s.OnTape := onTape
  rw [hloop, hcurrent, ← hlength]
  refine ⟨fun budget turns n c hrun => ?_, fun nonzero => ?_, drive_loop_of_zero hs⟩
  · obtain ⟨hsteps, hhalted, -⟩ := System.drive_halted_iff.1 ⟨turns, hrun⟩
    obtain ⟨k, t, hexec, rfl, -⟩ := exec_of_halted hs hsteps hhalted
    rw [b.exec_of_code_eq_nil hcode hs hexec]
    rfl
  · have hnever : ∀ n k t, ¬ Exec atEnd (.loop b.program .done) s n k (.ok t) := fun n k t =>
      not_exec_loop (fun hinside => b.exec_of_code_eq_nil hcode hs hinside) nonzero
    exact ⟨not_halted_of_not_exec hs hnever, endless_or_fails hs hnever⟩

/-- Nested loops without instructions: from a zero cell they come to their end, a loop around them runs
for ever or moves off the tape once it is entered, and is passed over otherwise. -/
theorem drive_of_generate_eq_nil_nested :
    ((system (Code.ofText "[[]<>[+-]]".toList) none).drive none 2 0 ⟨0, #[7, 0], 1, [5], #[]⟩).state =
      ⟨10, #[7, 0], 1, [5], #[]⟩ ∧
    ((system (Code.ofText "[[[]<>[+-]]]".toList) none).drive none 99 0 ⟨0, #[7, 0], 0, [5], #[]⟩).ending ≠
      .halted ∧
    ((system (Code.ofText "[[[]<>[+-]]]".toList) none).drive none 2 0 ⟨0, #[7, 0], 1, [5], #[]⟩) =
      ⟨⟨12, #[7, 0], 1, [5], #[]⟩, 1, .halted⟩ := by
  have htext : flaw? "[[]<>[+-]]".toList = none := by decide
  have hnil : ({} : Generator).generate "[[]<>[+-]]".toList = .ok [] := by decide +kernel
  obtain ⟨hsame, -, hpass⟩ := drive_of_generate_eq_nil htext hnil none
    (show 1 < (#[7, 0] : Array UInt8).size by decide) [5] #[]
  obtain ⟨-, hnever, -⟩ := drive_of_generate_eq_nil htext hnil none
    (show 0 < (#[7, 0] : Array UInt8).size by decide) [5] #[]
  refine ⟨?_, (hnever (by decide)).1 none 99, hpass rfl 0⟩
  exact hsame none 2 1 _ rfl

end Brainfuck
