import Brainfuck.Proofs.Acceptance
import Brainfuck.Proofs.Rendering
import Brainfuck.Proofs.Safety
import Brainfuck.Service.App

/-!
# The handlers of the service agree

The handler that checks a program decides what the other two answer: a flaw is handed on as it is, and a program
without one is translated and run. The handlers expect few failures, and nothing else can arise.

* `lineTexts_of_flaw`, `exists_lineTexts` : the compiler accepts what the check accepts;
* `outcome_within_budget` : how a run of compiled lines ends when it has the turns of its budget;
* `exists_translated`, `endsRun_executeProgram` : what the handlers make of a program without a flaw;
* `Agreement`, `handlers_agree` : the answers of the three handlers;
* `respond_validate`, `respond_transpile`, `respond_run` : which handler answers a request that comes through
  the framework;
* `routes_agree` : the responses of the three routes.
-/

namespace Brainfuck.Service

open Machine

/-! ## Compiling -/

theorem lineTexts_of_flaw {compiler : Compiler} {source : List Char} {flaw : Flaw}
    (h : flaw? (joinSource source) = some flaw) :
    compiler.lineTexts (joinSource source) = .error (.flaw flaw) := by
  rw [lineTexts_joinSource]
  apply lineTexts_of_error
  rw [ensureProgram, h]

theorem flaw?_eq_none_iff_sentence {text : List Char} : flaw? text = none ↔ Sentence text := by
  rw [flaw?_eq_none_iff, sentence_iff_exists_text]

/-- Without a flaw, the default compiler gives the lines of a block, and they have a place in its
template. -/
theorem exists_lineTexts {text : List Char} (h : flaw? text = none) :
    ∃ (b : Block) (assembly : List Char),
      ({} : Compiler).lineTexts text = .ok ((b.lines {} 0).map Line.text) ∧
      ({} : Compiler).fillTemplate ((b.lines {} 0).map Line.text) = .ok assembly := by
  obtain ⟨b, -, -, hlines⟩ := exists_lines {} h
  obtain ⟨assembly, hfill⟩ : ∃ assembly,
      Template.fill Template.bundled ((b.lines {} 0).map Line.text) {} = .ok assembly :=
    ⟨_, fill_bundled 30000 _⟩
  exact ⟨b, assembly, hlines, congrArg (Except.mapError Compiler.Failure.template) hfill⟩

/-! ## Running -/

/-- Compiled lines that are given one turn more than their budget has steps leave a result, use up the
budget, or access what is outside of the memory. -/
theorem outcome_within_budget {emulator : Emulator} {size : Int}
    (hemulator : emulator.convention = { stackSize := size }) (b : Block) (input : List Int)
    {budget : Nat} (hbudget : stepBudget emulator.limit = some budget) {lines : List (List Char)}
    (hlines : (b.lines { stackSize := size } 0).map Line.text = lines) :
    (∃ result, (emulator.runLines lines input (budget + 1)).1 = .ok result) ∨
      (emulator.runLines lines input (budget + 1)).1 = .error .outOfSteps ∨
      ∃ line address,
        (emulator.runLines lines input (budget + 1)).1 = .error (.fault line (.outOfRange address)) := by
  subst hlines
  obtain ⟨hcode, hsize⟩ := holds_lines (Convention.names_default size) b
  have hplain := emulator.furtherName_initial_default hemulator input
  have hstart : Alike 0 (emulator.initial input) (emulator.initial input) := .self rfl hplain
  generalize hrun : emulator.execute (emulator.initial input)
    (Listing.ofLines ((b.lines { stackSize := size } 0).map Line.text)) (budget + 1) = run
  rw [Emulator.runLines, hrun]
  obtain ⟨t, k, ending⟩ := run
  rw [Emulator.execute, hplain, hbudget] at hrun
  obtain ⟨n, u, hsteps, hk, hlimit, hend⟩ := System.steps_of_drive hrun
  cases ending with
  | halted =>
    obtain ⟨-, rfl⟩ := hend
    obtain ⟨-, -, hname, -⟩ := ready_of_steps hcode hsize (linked_block b) hstart rfl hsteps
    exact .inl ⟨_, emulator.resultOf_default hemulator hname k⟩
  | failed e =>
    obtain ⟨line, f⟩ := e
    obtain ⟨running, failed, -⟩ := hend
    obtain ⟨address, rfl⟩ :=
      fault_of_steps hcode hsize (linked_block b) hstart rfl hsteps running failed
    exact .inr (.inr ⟨line, address, rfl⟩)
  | exhausted => exact .inr (.inl rfl)
  | paused =>
    -- the budget ends the run before the turns do
    obtain ⟨rfl, -⟩ := hend
    have hle : budget + 1 = 0 ∨ k ≤ budget := hlimit budget rfl
    have hturns : k = 0 + (budget + 1) := hk
    omega

theorem new_default (limit : Option Int) :
    ∃ emulator : Emulator, Emulator.new none Emulator.defaultMemorySize {} limit = .ok emulator ∧
      emulator.convention = {} ∧ emulator.limit = limit :=
  ⟨Emulator.ofSize 1048576 {} (by decide) limit, rfl, rfl, rfl⟩

/-! ## The handlers -/

theorem compileProgram_of_flaw {code : List Char} {flaw : Flaw} (h : flaw? (joinSource code) = some flaw)
    (template : Bool) :
    compileProgram {} { code := joinSource code, template } = .flawed flaw := by
  simp only [compileProgram, lineTexts_of_flaw h, Answer.ofCompilerFailure]

theorem exists_translated {text : List Char} (h : flaw? text = none) (template : Bool) :
    ∃ lines assembly, compileProgram {} { code := text, template } = .translated lines assembly ∧
      assembly.isSome = template := by
  obtain ⟨b, assembly, hlines, hfill⟩ := exists_lineTexts h
  cases template
  · refine ⟨(b.lines {} 0).map Line.text, none, ?_, rfl⟩
    simp only [compileProgram, hlines, Bool.false_eq_true, if_false]
  · refine ⟨(b.lines {} 0).map Line.text, some assembly, ?_, rfl⟩
    simp only [compileProgram, hlines, if_true, hfill]

theorem executeProgram_of_flaw {code : List Char} {flaw : Flaw} (h : flaw? (joinSource code) = some flaw)
    (input : List Char) (maxSteps tapeWindow : Int) :
    executeProgram {} { code := joinSource code, input, maxSteps, tapeWindow } = .flawed flaw := by
  simp only [executeProgram, lineTexts_of_flaw h, Answer.ofCompilerFailure]

/-- The answers to a run of a program without a flaw: it came to its end, it used up its budget, or it
accessed what is outside of the memory. -/
inductive Answer.EndsRun : Answer → Prop
  | ran (report : RunReport) : EndsRun (.ran report)
  | exhausted : EndsRun (.exhausted "Assembly program exceeded allowed step count")
  | faulted (line : Nat) (address : Int) :
    EndsRun (.faulted (s!"line {line}: memory access out of range at " ++
      String.ofList (Text.signedHex address)))

theorem Answer.EndsRun.status_ne {answer : Answer} (h : answer.EndsRun) : answer.status ≠ 422 := by
  cases h <;> simp [status]

theorem Answer.EndsRun.ne_crashed {answer : Answer} (h : answer.EndsRun) : answer ≠ .crashed := by
  cases h <;> simp

theorem endsRun_executeProgram {text : List Char} (h : flaw? text = none) (input : List Char)
    (maxSteps tapeWindow : Int) :
    (executeProgram {} { code := text, input, maxSteps, tapeWindow }).EndsRun := by
  obtain ⟨b, -, hlines, -⟩ := exists_lineTexts h
  obtain ⟨emulator, hnew, hconvention, hlimit⟩ := new_default (some maxSteps)
  have hbudget : stepBudget emulator.limit = some maxSteps.toNat := by
    rw [hlimit]
    rfl
  have houtcome := outcome_within_budget hconvention b (input.map fun c => (c.toNat : Int)) hbudget rfl
  have hturns : turnsFor (stepBudget (some maxSteps)) 0 = maxSteps.toNat + 1 := rfl
  simp only [executeProgram, hlines, hturns, hnew]
  obtain ⟨result, hresult⟩ | hresult | ⟨line, address, hresult⟩ := houtcome
  · rw [hresult]
    exact .ran (reportOf tapeWindow result)
  · rw [hresult]
    exact .exhausted
  · rw [hresult]
    exact .faulted line address

/-- What the answers of the three handlers have to do with one another. The verdict of the check says whether the
program is a sentence of the language. A flaw is what the other two answer as well. Without one the program is
translated, and run to one of the expected ends. -/
structure Agreement (sentence : Prop) (template : Bool) (validated transpiled ran : Answer) : Prop where
  verdict : ∃ verdict, validated = .checked verdict ∧ (verdict = none ↔ sentence) ∧
    ∀ flaw, verdict = some flaw → transpiled = .flawed flaw ∧ ran = .flawed flaw
  accepted : sentence → ran.EndsRun ∧
    ∃ lines assembly, transpiled = .translated lines assembly ∧ assembly.isSome = template
  transpiled_status : transpiled.status = 200 ↔ sentence
  ran_status : ran.status = 422 ↔ ¬sentence
  expected : validated ≠ .crashed ∧ transpiled ≠ .crashed ∧ ran ≠ .crashed

/-- The handlers agree on a text without line breaks, and none of them meets a failure that it does not
expect. -/
theorem handlers_agree (code input : List Char) (template : Bool) (maxSteps tapeWindow : Int) :
    Agreement (Sentence (joinSource code)) template (checkProgram { code := joinSource code })
      (compileProgram {} { code := joinSource code, template })
      (executeProgram {} { code := joinSource code, input, maxSteps, tapeWindow }) := by
  rw [← flaw?_eq_none_iff_sentence]
  cases hflaw : flaw? (joinSource code) with
  | some flaw =>
    rw [checkProgram, compileProgram_of_flaw hflaw, executeProgram_of_flaw hflaw, hflaw]
    exact {
      verdict := ⟨some flaw, rfl, by simp, by simp⟩
      accepted := by simp
      transpiled_status := by simp [Answer.status]
      ran_status := by simp [Answer.status]
      expected := by simp }
  | none =>
    obtain ⟨lines, assembly, htranspiled, hassembly⟩ := exists_translated hflaw template
    have hran := endsRun_executeProgram hflaw input maxSteps tapeWindow
    rw [checkProgram, htranspiled, hflaw]
    exact {
      verdict := ⟨none, rfl, by simp, by simp⟩
      accepted := fun _ => ⟨hran, lines, assembly, rfl, hassembly⟩
      transpiled_status := iff_of_true rfl rfl
      ran_status := iff_of_false hran.status_ne (by simp)
      expected := ⟨by simp, by simp, hran.ne_crashed⟩ }

/-! ## The routes -/

section

open Framework (Field Request)

/-- A `POST` request for a place, with the given fields. -/
def post (place : String) (fields : List (String × Field)) : Request where
  address := place.toList
  body := .object fields

def validateRequest (code : List Char) : Request :=
  post "/api/validate" [("code", .text code)]

def transpileRequest (code : List Char) (template : Bool) : Request :=
  post "/api/transpile" [("code", .text code), ("template", .boolean template)]

def runRequest (code input : List Char) (maxSteps tapeWindow : Int) : Request :=
  post "/api/run" [("code", .text code), ("input", .text input), ("max_steps", .integer maxSteps),
    ("tape_window", .integer tapeWindow)]

theorem respond_validate (compiler : Compiler) (code : List Char) :
    respond compiler (validateRequest code) = .handled (checkProgram { code := joinSource code }) := by
  have hplace : Framework.barePlace (Framework.placeOf "/api/validate".toList) = "/api/validate".toList := by
    decide
  have hhandler : (app compiler).handlers.lookup "/api/validate".toList =
      some fun body => (CheckRequest.read body).map checkProgram := rfl
  exact Framework.App.respond_filed hplace hhandler

theorem respond_transpile (compiler : Compiler) (code : List Char) (template : Bool) :
    respond compiler (transpileRequest code template) =
      .handled (compileProgram compiler { code := joinSource code, template }) := by
  have hplace : Framework.barePlace (Framework.placeOf "/api/transpile".toList) = "/api/transpile".toList := by
    decide
  have hhandler : (app compiler).handlers.lookup "/api/transpile".toList =
      some fun body => (CompileRequest.read body).map (compileProgram compiler) := rfl
  exact Framework.App.respond_filed hplace hhandler

theorem respond_post_run (compiler : Compiler) (fields : List (String × Field)) :
    respond compiler (post "/api/run" fields) =
      match ExecuteRequest.read (.object fields) with
      | .ok request => .handled (executeProgram compiler request)
      | .error found => .unreadable found := by
  have hplace : Framework.barePlace (Framework.placeOf "/api/run".toList) = "/api/run".toList := by decide
  have hhandler : (app compiler).handlers.lookup "/api/run".toList =
      some fun body => (ExecuteRequest.read body).map (executeProgram compiler) := rfl
  rw [respond, post, Framework.App.respond_filed hplace hhandler]
  cases ExecuteRequest.read (.object fields) <;> rfl

theorem asIntegerFrom_integer {least n : Int} (h : least ≤ n) :
    Field.asIntegerFrom least (.integer n) = .ok n :=
  if_neg (by omega)

theorem read_run (code input : List Char) {maxSteps tapeWindow : Int} (hsteps : 1 ≤ maxSteps)
    (hwindow : 0 ≤ tapeWindow) :
    ExecuteRequest.read (runRequest code input maxSteps tapeWindow).body =
      .ok { code := joinSource code, input, maxSteps, tapeWindow } := by
  have hmaxSteps := asIntegerFrom_integer hsteps
  have htapeWindow := asIntegerFrom_integer hwindow
  simp [ExecuteRequest.read, runRequest, post, Framework.Body.fields, readCode, Framework.readField,
    List.lookup_cons, Field.asText, Except.map, hmaxSteps, htapeWindow]

theorem respond_run (compiler : Compiler) (code input : List Char) {maxSteps tapeWindow : Int}
    (hsteps : 1 ≤ maxSteps) (hwindow : 0 ≤ tapeWindow) :
    respond compiler (runRequest code input maxSteps tapeWindow) =
      .handled (executeProgram compiler { code := joinSource code, input, maxSteps, tapeWindow }) := by
  have hread := read_run code input hsteps hwindow
  simp only [runRequest, post] at hread
  rw [runRequest, respond_post_run, hread]

end

/-- The routes agree, and none of them meets a failure that the service does not expect: each hands its request to
its handler, with the text without its line breaks, and the answers of the handlers agree. -/
theorem routes_agree (code input : List Char) (template : Bool) {maxSteps tapeWindow : Int}
    (hsteps : 1 ≤ maxSteps) (hwindow : 0 ≤ tapeWindow) :
    let validated := checkProgram { code := joinSource code }
    let transpiled := compileProgram {} { code := joinSource code, template }
    let ran := executeProgram {} { code := joinSource code, input, maxSteps, tapeWindow }
    respond {} (validateRequest code) = .handled validated ∧
      respond {} (transpileRequest code template) = .handled transpiled ∧
      respond {} (runRequest code input maxSteps tapeWindow) = .handled ran ∧
      Agreement (Sentence (joinSource code)) template validated transpiled ran :=
  ⟨respond_validate {} code, respond_transpile {} code template, respond_run {} code input hsteps hwindow,
    handlers_agree code input template maxSteps tapeWindow⟩

theorem routes_agree_unclosed :
    (respond {} (transpileRequest "[\n+".toList true) = .handled (.flawed (.unclosedBracket 0)) ∧
      respond {} (runRequest "[\n+".toList [] 1 0) = .handled (.flawed (.unclosedBracket 0))) ∧
    (∃ transpiled ran : Answer, respond {} (transpileRequest "+\n.".toList false) = .handled transpiled ∧
      respond {} (runRequest "+\n.".toList ['x'] 9 3) = .handled ran ∧ transpiled.status = 200 ∧
      ran.EndsRun) := by
  have hsentence : Sentence (joinSource "+\n.".toList) := flaw?_eq_none_iff_sentence.1 (by decide)
  obtain ⟨-, htranspiled, hran, hflawed⟩ :=
    routes_agree "[\n+".toList [] true (show (1 : Int) ≤ 1 by decide) (show (0 : Int) ≤ 0 by decide)
  obtain ⟨-, htranspiled', hran', hsound⟩ :=
    routes_agree "+\n.".toList ['x'] false (show (1 : Int) ≤ 9 by decide)
      (show (0 : Int) ≤ 3 by decide)
  obtain ⟨verdict, hverdict, -, hanswers⟩ := hflawed.verdict
  obtain ⟨htranspiler, hrunner⟩ := hanswers (.unclosedBracket 0)
    ((Answer.checked.inj hverdict).symm.trans (by decide))
  rw [htranspiler] at htranspiled
  rw [hrunner] at hran
  exact ⟨⟨htranspiled, hran⟩, _, _, htranspiled', hran', hsound.transpiled_status.2 hsentence,
    (hsound.accepted hsentence).1⟩

end Brainfuck.Service
