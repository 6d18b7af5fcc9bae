import Brainfuck.Proofs.Rendering
import Brainfuck.Proofs.Startup

/-!
# Whole programs and bare lines

* `holds_whole` : the code of a whole program;
* `exists_layout` : a source gives code for bare lines and for a whole program (`Layout`);
* `halts_whole`, `halts_bare` : a whole program halts if its bare lines do, and conversely;
* `runText_iff_runLines` : a whole program and its bare lines have the same results, and the whole
  program needs as many more steps as its tape has cells four times, and seven.
-/

namespace Brainfuck

open Machine Codegen Text

/-! ## Code -/

theorem stands_ofListing {listing : Listing} {before xs after : List Instruction}
    {actions : List Action} (hlisting : listing.instructions = before ++ xs ++ after)
    (hactions : xs.map (Action.ofInstruction none listing.target?) = actions) :
    Stands (Code.ofListing none listing) before.length actions := by
  intro i action hi
  rw [← hactions, List.getElem?_map, Option.map_eq_some_iff] at hi
  obtain ⟨x, hx, rfl⟩ := hi
  have hlt : i < xs.length := (List.getElem?_eq_some_iff.1 hx).1
  refine ⟨x.line, ?_⟩
  rw [Code.ofListing_eq, List.getElem?_toArray, List.getElem?_map, hlisting, List.append_assoc,
    List.getElem?_append_right (Nat.le_add_right _ _), Nat.add_sub_cancel_left,
    List.getElem?_append_left hlt, hx]
  rfl

theorem actions_opening {target? : List Char → Option Nat} (h : target? ".clear".toList = some 4)
    (cells : Nat) :
    (opening cells).instructions.map (Action.ofInstruction none target?) = openingActions cells := by
  have hbyte : Operand.read none "byte [rdi]".toList =
      ⟨"byte [rdi]".toList, .memory (.sum [(1, .register (.general .rdi))])⟩ :=
    Operand.read_byteCell (Register.ofName?_name .rdi)
  have hread : (opening cells).instructions.map (Action.ofInstruction none target?) =
      [.move (.read none Register.rcx.name) (.read none (hex cells)),
        .combine .sub (.read none Register.rsp.name) (some (.read none Register.rcx.name)),
        .move (.read none Register.rbx.name) (.read none Register.rsp.name),
        .move (.read none Register.rdi.name) (.read none Register.rsp.name),
        .move (.read none "byte [rdi]".toList) (.read none (hex 0)),
        .combine .add (.read none Register.rdi.name) (some (.read none (hex 1))),
        .combine .sub (.read none Register.rcx.name) (some (.read none (hex 1))),
        .ofJump target? .ifNotZero [".clear".toList]] := rfl
  rw [hread]
  simp only [Operand.read_name, Operand.read_hex, hbyte, Action.ofJump, h]
  rfl

theorem actions_epilogue (target? : List Char → Option Nat) (line : Nat) (count : Nat) :
    (Listing.ofLinesFrom line count epilogue).instructions.map (Action.ofInstruction none target?) =
      closingActions := by
  have hread : (Listing.ofLinesFrom line count epilogue).instructions.map
      (Action.ofInstruction none target?) =
      [.move (.read none Register.rax.name) (.read none (hex 60)),
        .combine .xor (.read none Register.rdi.name) (some (.read none Register.rdi.name)),
        .systemCall] := by
    rw [ofLinesFrom_epilogue]
    rfl
  rw [hread, Operand.read_name, Operand.read_name, Operand.read_hex]
  rfl

/-- The labels of the template are not those of a loop. -/
theorem labelName_ne (e : Bool) (i : Nat) :
    labelName e i ≠ "_start".toList ∧ labelName e i ≠ ".clear".toList := by
  have htake : (labelName e i).take 2 = if e then ".e".toList else ".l".toList := by
    cases e <;> rfl
  refine ⟨fun h => ?_, fun h => ?_⟩
  · rw [h] at htake
    revert htake
    cases e <;> decide
  · rw [h] at htake
    revert htake
    cases e <;> decide

theorem nodup_labels (b : Block) (cells : Nat) :
    ((opening cells).labels.map Prod.fst ++
      (b.marks 0).map fun mark => labelName mark.1 mark.2).Nodup := by
  rw [List.nodup_append]
  refine ⟨show ["_start".toList, ".clear".toList].Nodup by decide, nodup_labelNames b 0, fun name hname name' hname' => ?_⟩
  obtain ⟨⟨e, i⟩, -, rfl⟩ := List.mem_map.1 hname'
  have hne := labelName_ne e i
  have hmem : name = "_start".toList ∨ name = ".clear".toList := by
    simpa [opening, clearing] using hname
  rcases hmem with rfl | rfl
  · exact hne.1.symm
  · exact hne.2.symm

/-- The code of a whole program: the instructions that reserve the tape, those of the block, and those
that exit. -/
theorem holds_whole (b : Block) (cells : Nat) {lines : List (List Char)}
    (hlines : (b.lines { stackSize := cells } 0).map Line.text = lines) :
    ∃ code, Code.ofListing none (Listing.ofLines
        (splitLines (ended (prologue cells ++ joinLines lines :: epilogue)))) = code ∧
      Stands code 0 (openingActions cells) ∧ Holds code .rbx .rcx 8 b.code ∧
      Stands code (8 + b.code.length) closingActions := by
  have names := Convention.names_default cells
  subst hlines
  rw [splitLines_whole (isLineEnd_lines names b 0)]
  -- an empty line stands for an empty program
  obtain ⟨line, hlast⟩ : ∃ line, Listing.ofLinesFrom
      (1 + (prologue cells).length + (b.lines { stackSize := cells } 0).length)
      ((opening cells).instructions.length + b.code.length)
      ((if (b.lines { stackSize := cells } 0).map Line.text = [] then [[]] else []) ++ epilogue) =
      Listing.ofLinesFrom line ((opening cells).instructions.length + b.code.length) epilogue := by
    split
    · exact ⟨_, rfl⟩
    · exact ⟨_, rfl⟩
  have hnodup := nodup_labels b cells
  obtain ⟨inner, full, hfull, hsplit, hlength, hunique, hholds⟩ :=
    holds_block names b (ofLines_prologue cells) hlast
      (by rw [ofLinesFrom_epilogue, List.map_nil, List.append_nil]; exact hnodup)
  have hinstructions : full.instructions = (opening cells).instructions ++ inner.instructions ++
      (Listing.ofLinesFrom line ((opening cells).instructions.length + b.code.length)
        epilogue).instructions := by rw [hsplit]; rfl
  have hclear : full.target? ".clear".toList = some 4 := by
    refine Listing.target?_of_mem hunique ?_
    rw [hsplit]
    exact List.mem_append_left _ (List.mem_append_left _ (by simp [opening, clearing]))
  refine ⟨_, by rw [hfull], ?_, hholds, ?_⟩
  · exact stands_ofListing (show full.instructions = [] ++ _ ++ _ by
      rw [hinstructions, List.append_assoc, List.nil_append]) (actions_opening hclear cells)
  · have hstands := stands_ofListing (show full.instructions = _ ++ _ ++ [] by
      rw [hinstructions, List.append_nil]) (actions_epilogue full.target? line _)
    rwa [List.length_append, hlength] at hstands

/-! ## Runs -/

/-- The code of bare lines and that of a whole program, for the same block. -/
structure Layout (cells : Nat) (b : Block) (bare whole : Machine.Code) : Prop where
  alone : Holds bare .rbx .rcx 0 b.code
  size : bare.size = b.code.length
  opening : Stands whole 0 (openingActions cells)
  body : Holds whole .rbx .rcx 8 b.code
  closing : Stands whole (8 + b.code.length) closingActions

/-- A state in which a whole program ends, beside the one in which its bare lines do. -/
structure Ends (s t : State) : Prop where
  exitStatus : t.exitStatus = some 0
  memory : t.memory = s.memory
  output : t.output = s.output
  pointer : t.registers.get .rbx = s.registers.get .rbx
  plain : s.registers.furtherName = none ∧ t.registers.furtherName = none

variable {emulator : Emulator} {cells : Nat} {b : Block} {bare whole : Machine.Code}
  {input : List Int} {s t : State} {n : Nat}

/-- A whole program, with four steps more for each cell and seven, ends as its bare lines do, and exits
with status zero. -/
theorem halts_whole (h : emulator.Standard cells) (hlayout : Layout cells b bare whole)
    (hsteps : (system bare).Steps n (emulator.initial input) s)
    (hhalted : (system bare).halted s = true) :
    ∃ t, (system whole).Steps (n + (4 * cells + 7)) (Emulator.blank emulator.memorySize input) t ∧
      (system whole).halted t = true ∧ Ends s t := by
  obtain ⟨u, hopening, hu⟩ := steps_opening h hlayout.opening input
  obtain ⟨v, hbody, hv⟩ := steps_abreast hlayout.alone hlayout.size hlayout.body (linked_block b)
    (hu.abreast (linked_block b) rfl) hsteps
  have hend : s.pc = b.code.length := by
    have hle : bare.size ≤ s.pc := by simpa [system, hv.alike.running.1] using hhalted
    rw [hlayout.size] at hle
    exact Nat.le_antisymm hv.inside hle
  obtain ⟨t, hclosing, hexit, hmemory, houtput, hpointer, hname⟩ := steps_closing hlayout.closing
    (by rw [hv.alike.pc, hend, Nat.add_comm]) hv.alike.running.2
  refine ⟨t, ?_, by simp [system, hexit], hexit, hmemory.trans hv.alike.memory,
    houtput.trans hv.alike.output, hpointer.trans (hv.alike.registers .rbx (by decide) (by decide)),
    hv.alike.plain.1, hname.trans hv.alike.plain.2⟩
  rw [show n + (4 * cells + 7) = 4 * cells + 4 + (n + 3) by omega]
  exact hopening.trans (hbody.trans hclosing)

/-- If a whole program halts, its bare lines do. -/
theorem halts_bare (h : emulator.Standard cells) (hlayout : Layout cells b bare whole)
    (hsteps : (system whole).Steps n (Emulator.blank emulator.memorySize input) t)
    (hhalted : (system whole).halted t = true) :
    ∃ m s, (system bare).Steps m (emulator.initial input) s ∧ (system bare).halted s = true := by
  obtain ⟨u, hopening, hu⟩ := steps_opening h hlayout.opening input
  obtain ⟨k, -, hrest⟩ := hsteps.split (.inl hhalted) hopening
  obtain ⟨m, s, v, hbare, -, -, hend⟩ := abreast_of_halted hlayout.alone hlayout.body (linked_block b)
    (hu.abreast (linked_block b) rfl) hrest hhalted
  exact ⟨m, s, hbare, by simp [system, hlayout.size, hend]⟩

theorem layout (b : Block) (cells : Nat) {lines : List (List Char)}
    (hlines : (b.lines { stackSize := cells } 0).map Line.text = lines) :
    Layout cells b (Code.ofListing none (Listing.ofLines lines)) (Code.ofListing none
      (Listing.ofLines (splitLines (ended (prologue cells ++ joinLines lines :: epilogue))))) := by
  obtain ⟨_, rfl, hopening, hbody, hclosing⟩ := holds_whole b cells hlines
  subst hlines
  obtain ⟨halone, hsize⟩ := holds_lines (Convention.names_default cells) b
  exact ⟨halone, hsize, hopening, hbody, hclosing⟩

/-- An emulator with a budget of steps, or without one. -/
def Machine.Emulator.budgeted (emulator : Emulator) (budget : Option Nat) : Emulator :=
  { emulator with limit := budget.map Int.ofNat }

theorem outcome_budgeted_iff (emulator : Emulator) (budget : Option Nat) {start : State}
    (hname : start.registers.furtherName = none) (listing : Listing) (result : Result) :
    (∃ turns, (emulator.budgeted budget).outcome
        ((emulator.budgeted budget).execute start listing turns) = .ok result) ↔
      ∃ n t, (system (Code.ofListing none listing)).Steps n start t ∧
        (system (Code.ofListing none listing)).halted t = true ∧
        (∀ limit ∈ budget, n ≤ limit) ∧ emulator.resultOf t n = .ok result := by
  have hbudget : stepBudget (emulator.budgeted budget).limit = budget := by
    cases budget <;> rfl
  have hiff := (emulator.budgeted budget).outcome_execute_iff start listing result
  rw [hname, hbudget] at hiff
  exact hiff

theorem exists_layout (h : emulator.Standard cells) {source : List Char}
    (hsource : flaw? (joinSource source) = none) :
    ∃ b lines text,
      ({ convention := emulator.convention } : Compiler).lineTexts source = .ok lines ∧
      ({ convention := emulator.convention } : Compiler).assembly source = .ok text ∧
      Layout cells b (Code.ofListing none (Listing.ofLines lines))
        (Code.ofListing none (Listing.ofLines (splitLines text))) := by
  obtain ⟨b, -, -, hlines⟩ := exists_lines emulator.convention hsource
  rw [lineTexts_joinSource] at hlines
  have hassembly : ({ convention := emulator.convention } : Compiler).assembly source =
      .ok (ended (prologue cells ++ joinLines ((b.lines emulator.convention 0).map Line.text) ::
        epilogue)) := by
    rw [Compiler.assembly, hlines]
    simp only [Compiler.fillTemplate, h.convention, fill_bundled, bind, Except.bind, Except.mapError]
  refine ⟨b, _, _, hlines, hassembly, ?_⟩
  rw [h.convention]
  exact layout b cells rfl

/-- A whole program returns a result if and only if its bare lines do with four steps less for each
cell of the tape and seven. The results have the same output, tape and pointer, and the whole program
exits with status zero. -/
theorem runText_iff_runLines (hemulator : emulator.Standard cells) {source : List Char}
    (hsource : flaw? (joinSource source) = none) (input : List Int) (budget : Option Nat) :
    ∃ lines text,
      ({ convention := emulator.convention } : Compiler).lineTexts source = .ok lines ∧
      ({ convention := emulator.convention } : Compiler).assembly source = .ok text ∧
      ((∃ turns result, ((emulator.budgeted budget).runLines lines input turns).1 = .ok result) ↔
        ∃ turns result, ((emulator.budgeted (budget.map (· + (4 * cells + 7)))).runText text input
          turns).1 = .ok result) ∧
      ∀ turns turns' result result',
        ((emulator.budgeted budget).runLines lines input turns).1 = .ok result →
        ((emulator.budgeted (budget.map (· + (4 * cells + 7)))).runText text input turns').1 =
          .ok result' →
        result'.output = result.output ∧ result'.tape = result.tape ∧
          result'.pointer = result.pointer ∧ result'.steps = result.steps + (4 * cells + 7) ∧
          result'.exitStatus = some 0 := by
  obtain ⟨b, lines, text, hlines, hassembly, hlayout⟩ := exists_layout hemulator hsource
  refine ⟨lines, text, hlines, hassembly, ?_⟩
  have hbare := fun budget => outcome_budgeted_iff emulator budget
    (show (emulator.initial input).registers.furtherName = none by rw [hemulator.registers_initial]; rfl)
    (Listing.ofLines lines)
  have hwhole := fun budget => outcome_budgeted_iff emulator budget
    (show (Emulator.blank emulator.memorySize input).registers.furtherName = none from rfl)
    (Listing.ofLines (splitLines text))
  refine ⟨⟨?_, ?_⟩, ?_⟩
  · rintro ⟨turns, result, hresult⟩
    obtain ⟨n, s, hsteps, hhalted, hlimit, -⟩ := (hbare budget result).1 ⟨turns, hresult⟩
    obtain ⟨t, hsteps', hhalted', hends⟩ := halts_whole hemulator hlayout hsteps hhalted
    have hlimit' : ∀ limit ∈ budget.map (· + (4 * cells + 7)), n + (4 * cells + 7) ≤ limit := by
      intro limit hmem
      obtain ⟨limit', hmem', rfl⟩ := Option.map_eq_some_iff.1 hmem
      exact Nat.add_le_add_right (hlimit limit' hmem') _
    obtain ⟨turns', hresult'⟩ := (hwhole _ _).2 ⟨_, t, hsteps', hhalted', hlimit',
      hemulator.resultOf_eq hends.plain.2 _⟩
    exact ⟨turns', _, hresult'⟩
  · rintro ⟨turns, result, hresult⟩
    obtain ⟨m, t, hsteps', hhalted', hlimit', -⟩ := (hwhole _ result).1 ⟨turns, hresult⟩
    obtain ⟨n, s, hsteps, hhalted⟩ := halts_bare hemulator hlayout hsteps' hhalted'
    obtain ⟨u, hsteps'', hhalted'', hends⟩ := halts_whole hemulator hlayout hsteps hhalted
    obtain ⟨hm, -⟩ := hsteps'.halted_unique hhalted' hsteps'' hhalted''
    have hlimit : ∀ limit ∈ budget, n ≤ limit := by
      intro limit hmem
      have := hlimit' _ (Option.map_eq_some_iff.2 ⟨limit, hmem, rfl⟩)
      omega
    obtain ⟨turns', hresult'⟩ := (hbare budget _).2 ⟨n, s, hsteps, hhalted, hlimit,
      hemulator.resultOf_eq hends.plain.1 _⟩
    exact ⟨turns', _, hresult'⟩
  · intro turns turns' result result' hresult hresult'
    obtain ⟨n, s, hsteps, hhalted, -, hs⟩ := (hbare budget result).1 ⟨turns, hresult⟩
    obtain ⟨m, t, hsteps', hhalted', -, ht⟩ := (hwhole _ result').1 ⟨turns', hresult'⟩
    obtain ⟨u, hsteps'', hhalted'', hends⟩ := halts_whole hemulator hlayout hsteps hhalted
    obtain ⟨rfl, rfl⟩ := hsteps'.halted_unique hhalted' hsteps'' hhalted''
    rw [hemulator.resultOf_eq hends.plain.1] at hs
    rw [hemulator.resultOf_eq hends.plain.2] at ht
    cases hs
    cases ht
    exact ⟨hends.output, by rw [hends.memory], by rw [hends.pointer], rfl, hends.exitStatus⟩

/-- A byte is copied, and the pointer leaves the tape of one cell. -/
theorem runText_iff_runLines_beyond :
    ∃ text, ({ convention := { stackSize := (1 : Nat) } } : Compiler).assembly ",\n.>".toList =
        .ok text ∧
      ∃ turns result, (((Emulator.ofSize 2 { stackSize := (1 : Nat) } (by decide) none).budgeted
          (some 26)).runText text [7] turns).1 = .ok result ∧
        result.output = #[7] ∧ result.pointer = 1 ∧ result.exitStatus = some 0 := by
  have hemulator : (Emulator.ofSize 2 { stackSize := (1 : Nat) } (by decide) none).Standard 1 :=
    ⟨rfl, by decide, by decide⟩
  have hbare : (((Emulator.ofSize 2 { stackSize := (1 : Nat) } (by decide) none).budgeted
      (some 15)).runLines ((({ convention := { stackSize := (1 : Nat) } } : Compiler).lineTexts
        ",\n.>".toList).toOption.getD []) [7] 100).1 = .ok ⟨#[7], #[7], 1, 15, none⟩ := by
    decide +kernel
  obtain ⟨lines, text, hlines, htext, hiff, hresults⟩ :=
    runText_iff_runLines hemulator (show flaw? (joinSource ",\n.>".toList) = none by decide) [7] (some 15)
  rw [show ({ convention := { stackSize := (1 : Nat) } } : Compiler).lineTexts ",\n.>".toList =
    .ok lines from hlines] at hbare
  obtain ⟨turns, result, hresult⟩ := hiff.1 ⟨100, _, hbare⟩
  obtain ⟨houtput, -, hpointer, -, hexit⟩ := hresults _ _ _ _ hbare hresult
  exact ⟨text, htext, turns, result, hresult, houtput, hpointer, hexit⟩

end Brainfuck
