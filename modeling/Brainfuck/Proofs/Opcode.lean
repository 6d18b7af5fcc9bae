import Brainfuck.Machine.Step
import Brainfuck.Proofs.Operands
import Mathlib.Algebra.Ring.Nat

/-!
# The instructions of generated code

* `Opcode` : the instructions that do not jump, with their written form (`Opcode.line`) and their
  effect on a machine in which the pointer and the cache are given registers (`Opcode.exec`);
* `Opcode.ofLine_line`, `Opcode.perform_action` : the written form is read back, and the machine does
  what the effect says.
-/

namespace Brainfuck

open Machine Codegen Text

/-- The instructions of generated code that do not jump. -/
inductive Opcode where
  /-- Move the stack pointer. -/
  | stack (up : Bool) (amount : Nat)
  /-- Move the pointer. -/
  | shift (up : Bool) (amount : Nat)
  /-- Change the current cell. -/
  | change (up : Bool) (amount : Nat)
  /-- Load the current cell into the cache. -/
  | load
  /-- Save the cache in a slot of the output buffer. -/
  | save (slot : Nat)
  /-- Take the stack pointer as the address of a system call. -/
  | aimStack
  /-- Take the pointer as the address of a system call. -/
  | aimTape
  | set (r : Register) (value : Nat)
  | call
  /-- Compare the current cell with zero. -/
  | test
  deriving DecidableEq

namespace Opcode

def verb : Opcode → String
  | stack up _ | shift up _ | change up _ => if up then "add" else "sub"
  | load | save _ | aimStack | aimTape | set _ _ => "mov"
  | call => "syscall"
  | test => "cmp"

def mnemonic (o : Opcode) : List Char := o.verb.toList

def operands (convention : Convention) : Opcode → List (List Char)
  | stack _ amount => ["rsp".toList, hex amount]
  | shift _ amount => [convention.pointerRegister, hex amount]
  | change _ amount => [byteCell convention.pointerRegister, hex amount]
  | load => [convention.cacheRegister, cell convention.pointerRegister]
  | save slot => [cell ("rsp+".toList ++ hex slot), convention.cacheRegister]
  | aimStack => ["rsi".toList, "rsp".toList]
  | aimTape => ["rsi".toList, convention.pointerRegister]
  | set r value => [r.name, hex value]
  | call => []
  | test => [byteCell convention.pointerRegister, hex 0]

def line (convention : Convention) (o : Opcode) : Line :=
  .instruction o.mnemonic (o.operands convention)

/-- What the machine makes of the written form. -/
def action (convention : Convention) (o : Opcode) : Action :=
  .ofOperands o.mnemonic ((o.operands convention).map (Operand.read none))

end Opcode

namespace Machine.State

/-- The state behind an instruction that moves a register. -/
def adjust (s : State) (r : Register) (up : Bool) (amount : Nat) : State :=
  let result := word (if up then s.registers.get r + amount else s.registers.get r - amount)
  { s with registers := s.registers.set r result, zeroFlag := result == 0, pc := s.pc + 1 }

def byte (s : State) (address : Nat) : UInt8 := s.memory.getD address 0

/-- The state behind an instruction that looks at one byte of the memory. -/
def within (s : State) (address : Nat) (next : State) : Except (Fault × State) State :=
  if address < s.memory.size then .ok next else .error (.outOfRange address, s)

end Machine.State

def changed (up : Bool) (value : UInt8) (amount : Nat) : UInt8 :=
  if up then value + UInt8.ofNat amount else value - UInt8.ofNat amount

/-- The effect of an instruction, where the pointer and the cache are in given registers. -/
def Opcode.exec (pointer cache : Register) (s : State) : Opcode → Except (Fault × State) State
  | stack up amount => .ok (s.adjust .rsp up amount)
  | shift up amount => .ok (s.adjust pointer up amount)
  | change up amount =>
    let address := s.registers.get pointer
    let value := changed up (s.byte address) amount
    s.within address { s with
      memory := s.memory.setIfInBounds address value, zeroFlag := value == 0, pc := s.pc + 1 }
  | load =>
    let address := s.registers.get pointer
    let old := s.registers.get cache
    s.within address { s with
      registers := s.registers.set cache ((old - old % 256) % 2 ^ 64 + (s.byte address).toNat)
      pc := s.pc + 1 }
  | save slot =>
    let address := s.registers.get .rsp + slot
    s.within address { s with
      memory := s.memory.setIfInBounds address (UInt8.ofNat (s.registers.get cache))
      pc := s.pc + 1 }
  | aimStack =>
    .ok { s with registers := s.registers.set .rsi (s.registers.get .rsp % 2 ^ 64), pc := s.pc + 1 }
  | aimTape =>
    .ok { s with registers := s.registers.set .rsi (s.registers.get pointer % 2 ^ 64), pc := s.pc + 1 }
  | set r value => .ok { s with registers := s.registers.set r (value % 2 ^ 64), pc := s.pc + 1 }
  | call => s.systemCall
  | test =>
    let address := s.registers.get pointer
    s.within address { s with zeroFlag := s.byte address == 0, pc := s.pc + 1 }

/-! ## Reading the written form -/

theorem IsOperand.of_plain {s : List Char} (hne : s ≠ [])
    (h : ∀ c ∈ s, isBlank c = false ∧ c ≠ ',' ∧ c ≠ ';' ∧ c ≠ ':') : IsOperand s := by
  refine ⟨fun c hc => ?_, ?_, ?_⟩
  · obtain ⟨hblank, hcomma, hsemicolon, hcolon⟩ := h c hc
    exact ⟨hcomma, hsemicolon, hcolon, isLineEnd_eq_false hblank⟩
  · exact ⟨s.head hne, List.head?_eq_some_head hne, (h _ (List.head_mem hne)).1⟩
  · exact ⟨s.getLast hne, List.getLast?_eq_some_getLast hne, (h _ (List.getLast_mem hne)).1⟩

theorem isOperand_hex (n : Nat) : IsOperand (hex n) :=
  .of_plain (List.cons_ne_nil _ _)
    (forall_mem_hex (P := fun c => isBlank c = false ∧ c ≠ ',' ∧ c ≠ ';' ∧ c ≠ ':') (by decide) n)

theorem isOperand_name (r : Register) : IsOperand r.name := by
  cases r <;> exact .of_plain (by decide) (forall_mem_of_all (by decide))

theorem isOperand_cell {s : List Char} (h : IsOperand s) : IsOperand (cell s) := by
  refine ⟨fun c hc => ?_, ⟨'[', rfl, by decide⟩, ⟨']', by simp [cell, List.getLast?_cons], by decide⟩⟩
  simp only [cell, List.cons_append, List.mem_cons, List.mem_append, List.not_mem_nil,
    or_false] at hc
  rcases hc with rfl | hc | rfl
  · decide
  · exact h.plain c hc
  · decide

theorem isOperand_byteCell {s : List Char} (h : IsOperand s) : IsOperand (byteCell s) := by
  refine ⟨?_, ⟨'b', rfl, by decide⟩, ⟨']', ?_, by decide⟩⟩
  · exact List.forall_mem_append.2 ⟨forall_mem_of_all (by decide), (isOperand_cell h).plain⟩
  · simp [byteCell, cell, List.getLast?_cons]

theorem isOperand_slot (n : Nat) : IsOperand (cell ("rsp+".toList ++ hex n)) := by
  refine isOperand_cell (.of_plain (by simp) ?_)
  exact List.forall_mem_append.2 ⟨forall_mem_of_all (by decide), forall_mem_hex (by decide) n⟩

namespace Opcode

variable {convention : Convention} {pointer cache : Register}

theorem mnemonic_mem (o : Opcode) :
    o.mnemonic ∈ ["add".toList, "sub".toList, "mov".toList, "syscall".toList, "cmp".toList] := by
  cases o
  case stack up _ | shift up _ | change up _ => cases up <;> simp [mnemonic, verb]
  all_goals simp [mnemonic, verb]

theorem isMnemonic (o : Opcode) : IsMnemonic o.mnemonic := by
  have : ∀ m ∈ ["add".toList, "sub".toList, "mov".toList, "syscall".toList, "cmp".toList],
      m.all (fun c => isBlank c = false ∧ c ≠ ';' ∧ c ≠ ':') = true ∧ m ≠ [] ∧ lower m = m ∧
        directives.contains m = false := by decide
  obtain ⟨hplain, hne, hsmall, hinstruction⟩ := this o.mnemonic o.mnemonic_mem
  exact ⟨forall_mem_of_all hplain, hne, hsmall, hinstruction⟩

theorem condition_mnemonic (o : Opcode) : Condition.ofMnemonic? o.mnemonic = none :=
  (by decide : ∀ m ∈ ["add".toList, "sub".toList, "mov".toList, "syscall".toList, "cmp".toList],
    Condition.ofMnemonic? m = none) o.mnemonic o.mnemonic_mem

theorem isOperand_operands (names : convention.Names pointer cache) (o : Opcode) :
    ∀ s ∈ o.operands convention, IsOperand s := by
  have hp : IsOperand convention.pointerRegister := by
    rw [Register.name_of_ofName? names.pointer]
    exact isOperand_name pointer
  have hc : IsOperand convention.cacheRegister := by
    have := Register.mem_lowByteNames names.cache
    simp only [Register.lowByteNames, List.mem_cons, Prod.mk.injEq, List.not_mem_nil,
      or_false] at this
    rcases this with h | h | h | h | h | h <;> rw [h.1] <;>
      exact .of_plain (by decide) (forall_mem_of_all (by decide))
  have hrsp : IsOperand "rsp".toList := isOperand_name .rsp
  have hrsi : IsOperand "rsi".toList := isOperand_name .rsi
  cases o <;> simp only [operands, List.forall_mem_cons, List.not_mem_nil, IsEmpty.forall_iff,
    implies_true, and_true]
  case stack => exact ⟨hrsp, isOperand_hex _⟩
  case shift => exact ⟨hp, isOperand_hex _⟩
  case change => exact ⟨isOperand_byteCell hp, isOperand_hex _⟩
  case load => exact ⟨hc, isOperand_cell hp⟩
  case save => exact ⟨isOperand_slot _, hc⟩
  case aimStack => exact ⟨hrsi, hrsp⟩
  case aimTape => exact ⟨hrsi, hp⟩
  case set r _ => exact ⟨isOperand_name r, isOperand_hex _⟩
  case test => exact ⟨isOperand_byteCell hp, isOperand_hex _⟩

theorem ofLine_line (names : convention.Names pointer cache) (o : Opcode) :
    Statement.ofLine (o.line convention).text =
      .instruction o.mnemonic (o.operands convention) :=
  Statement.ofLine_instruction o.isMnemonic (o.isOperand_operands names)

/-! ## The machine -/

theorem word_natCast (n : Nat) : word n = n % 2 ^ 64 := by
  unfold word
  omega

theorem checkRange_one (s : State) (address : Nat) :
    s.checkRange address 1 =
      if address < s.memory.size then .ok address else .error (.outOfRange address) := by
  unfold State.checkRange
  by_cases h : address < s.memory.size
  · rw [if_neg (by omega), if_pos h, Int.toNat_natCast]
  · rw [if_pos (by omega), if_neg h]

theorem resolve_pointer (s : State) (text : List Char) (r : Register) :
    s.resolve text (.sum [(1, .register (.general r))]) =
      if s.registers.get r < s.memory.size then .ok (s.registers.get r)
      else .error (.outOfRange (s.registers.get r)) := by
  have hsum : s.sumOf [(1, .register (.general r))] = (s.registers.get r : Int) := by
    simp [State.sumOf, State.termValue, Registers.getRef]
  rw [State.resolve, hsum, checkRange_one]

theorem resolve_slot (s : State) (text : List Char) (slot : Nat) :
    s.resolve text (.sum [(1, .register (.general .rsp)), (1, .number slot)]) =
      if s.registers.get .rsp + slot < s.memory.size then .ok (s.registers.get .rsp + slot)
      else .error (.outOfRange ((s.registers.get .rsp + slot : Nat) : Int)) := by
  have hsum : s.sumOf [(1, .register (.general .rsp)), (1, .number slot)] =
      ((s.registers.get .rsp + slot : Nat) : Int) := by
    simp [State.sumOf, State.termValue, Registers.getRef]
  rw [State.resolve, hsum, checkRange_one]

theorem value_of_resolve {s : State} {text : List Char} {address : Address} {a : Nat}
    (h : s.resolve text address = .ok a) :
    s.value ⟨text, .memory address⟩ = .ok ((s.byte a).toNat : Int) ∧
      s.place ⟨text, .memory address⟩ = .ok (.memory a) := by
  simp [State.value, State.place, h, State.byte]

theorem value_of_resolve_error {s : State} {text : List Char} {address : Address} {f : Fault}
    (h : s.resolve text address = .error f) :
    s.value ⟨text, .memory address⟩ = .error f ∧ s.place ⟨text, .memory address⟩ = .error f := by
  simp [State.value, State.place, h]

theorem toNat_changed (up : Bool) (value : UInt8) (amount : Nat) :
    (((if up then (value.toNat : Int) + amount else value.toNat - amount) % 256).toNat) =
      (changed up value amount).toNat := by
  have := value.toNat_lt
  cases up <;> simp only [changed, Bool.false_eq_true, if_false, if_true]
  · rw [UInt8.toNat_sub, UInt8.toNat_ofNat']
    omega
  · rw [UInt8.toNat_add, UInt8.toNat_ofNat']
    omega

theorem toNat_beq_zero (value : UInt8) : (value.toNat == 0) = (value == 0) := by
  rw [Bool.eq_iff_iff, beq_iff_eq, beq_iff_eq, ← UInt8.toNat_inj]
  rfl

theorem perform_adjust (s : State) (text text' : List Char) (r : Register) (up : Bool)
    (amount : Nat) :
    s.perform (.combine (if up then .add else .sub) ⟨text, .register (.general r)⟩
      (some ⟨text', .number amount⟩)) = .ok (s.adjust r up amount) := by
  cases up <;> rfl

theorem perform_move (s : State) (text : List Char) (r : Register) {source : Operand} {value : Nat}
    (h : s.value source = .ok (value : Int)) :
    s.perform (.move ⟨text, .register (.general r)⟩ source) =
      .ok { s with registers := s.registers.set r (value % 2 ^ 64), pc := s.pc + 1 } := by
  rw [State.perform, State.move, h, ← word_natCast]
  rfl

theorem perform_change (s : State) (text text' : List Char) (up : Bool) (amount : Nat) :
    s.perform (.combine (if up then .add else .sub)
      ⟨text, .memory (.sum [(1, .register (.general pointer))])⟩ (some ⟨text', .number amount⟩)) =
      (change up amount).exec pointer cache s := by
  have happly : ∀ left right : Int, (if up then Arithmetic.add else .sub).apply left right =
      if up then left + right else left - right := by
    cases up <;> exact fun _ _ => rfl
  have hresolve := resolve_pointer s text pointer
  rw [exec, State.within, State.perform, State.combine]
  by_cases h : s.registers.get pointer < s.memory.size
  · rw [if_pos h] at hresolve ⊢
    obtain ⟨hvalue, hplace⟩ := value_of_resolve hresolve
    rw [hvalue, hplace]
    simp only [State.valueOf?, State.value, happly, State.put, State.advance, Place.kept,
      toNat_changed, toNat_beq_zero, UInt8.ofNat_toNat]
  · rw [if_neg h] at hresolve ⊢
    rw [(value_of_resolve_error hresolve).1]

theorem perform_load (s : State) (text text' : List Char) :
    s.perform (.move ⟨text, .lowByte cache⟩
      ⟨text', .memory (.sum [(1, .register (.general pointer))])⟩) = load.exec pointer cache s := by
  have hresolve := resolve_pointer s text' pointer
  rw [exec, State.within, State.perform, State.move]
  by_cases h : s.registers.get pointer < s.memory.size
  · have hbyte : (((s.byte (s.registers.get pointer)).toNat : Int) % 256).toNat =
        (s.byte (s.registers.get pointer)).toNat := by
      have := (s.byte (s.registers.get pointer)).toNat_lt
      omega
    rw [if_pos h] at hresolve ⊢
    rw [(value_of_resolve hresolve).1]
    simp only [State.place, State.put, State.advance, Place.kept, hbyte, Nat.reducePow]
  · rw [if_neg h] at hresolve ⊢
    rw [(value_of_resolve_error hresolve).1]

theorem perform_save (s : State) (text text' : List Char) (slot : Nat) :
    s.perform (.move
      ⟨text, .memory (.sum [(1, .register (.general .rsp)), (1, .number slot)])⟩
      ⟨text', .lowByte cache⟩) = (save slot).exec pointer cache s := by
  have hresolve := resolve_slot s text slot
  rw [exec, State.within, State.perform, State.move]
  by_cases h : s.registers.get .rsp + slot < s.memory.size
  · have hbyte : UInt8.ofNat ((((s.registers.get cache % 256 : Nat) : Int) % 256).toNat) =
        UInt8.ofNat (s.registers.get cache) := by
      apply UInt8.toNat_inj.1
      rw [UInt8.toNat_ofNat', UInt8.toNat_ofNat']
      omega
    rw [if_pos h] at hresolve ⊢
    rw [(value_of_resolve hresolve).2]
    simp only [State.value, State.put, State.advance, Place.kept, hbyte]
  · rw [if_neg h] at hresolve ⊢
    rw [(value_of_resolve_error hresolve).2]
    rfl

theorem perform_test (s : State) (text text' : List Char) :
    s.perform (.compare ⟨byteCell text, .memory (.sum [(1, .register (.general pointer))])⟩
      (some ⟨text', .number (0 : Nat)⟩)) = test.exec pointer cache s := by
  have hresolve := resolve_pointer s (byteCell text) pointer
  rw [exec, State.within, State.perform, State.compare]
  by_cases h : s.registers.get pointer < s.memory.size
  · have hzero : ((((s.byte (s.registers.get pointer)).toNat : Int) - (0 : Nat)) % 256 == 0) =
        (s.byte (s.registers.get pointer) == 0) := by
      have := (s.byte (s.registers.get pointer)).toNat_lt
      rw [Bool.eq_iff_iff, beq_iff_eq, beq_iff_eq, ← UInt8.toNat_inj, UInt8.toNat_zero]
      omega
    rw [if_pos h] at hresolve ⊢
    rw [(value_of_resolve hresolve).1]
    simp only [State.valueOf?, State.value, Operand.isByteWide_byteCell, if_true, State.advance,
      hzero]
  · rw [if_neg h] at hresolve ⊢
    rw [(value_of_resolve_error hresolve).1]

/-- The machine does what the effect says. -/
theorem perform_action (names : convention.Names pointer cache) (o : Opcode) (s : State) :
    s.perform (o.action convention) = o.exec pointer cache s := by
  have hp : Operand.read none convention.pointerRegister =
      ⟨convention.pointerRegister, .register (.general pointer)⟩ := by
    rw [Register.name_of_ofName? names.pointer, Operand.read_name]
  have hc := Operand.read_lowByte names.cache
  have hcell := Operand.read_cell names.pointer
  have hbyte := Operand.read_byteCell names.pointer
  have hrsp : Operand.read none "rsp".toList = ⟨"rsp".toList, .register (.general .rsp)⟩ :=
    Operand.read_name .rsp
  have hrsi : Operand.read none "rsi".toList = ⟨"rsi".toList, .register (.general .rsi)⟩ :=
    Operand.read_name .rsi
  have harith : ∀ (up : Bool) (target source : Operand),
      Action.ofOperands (if up then "add" else "sub").toList [target, source] =
        .combine (if up then .add else .sub) target (some source) := by
    intro up _ _
    cases up <;> rfl
  have hmove : ∀ target source : Operand,
      Action.ofOperands "mov".toList [target, source] = .move target source := fun _ _ => rfl
  have hcompare : ∀ left right : Operand,
      Action.ofOperands "cmp".toList [left, right] = .compare left (some right) := fun _ _ => rfl
  cases o <;> simp only [action, mnemonic, verb, operands, List.map_cons, List.map_nil]
  case stack up amount =>
    rw [harith, hrsp, Operand.read_hex]
    exact perform_adjust s _ _ .rsp up amount
  case shift up amount =>
    rw [harith, hp, Operand.read_hex]
    exact perform_adjust s _ _ pointer up amount
  case change up amount =>
    rw [harith, hbyte, Operand.read_hex]
    exact perform_change s _ _ up amount
  case load =>
    rw [hmove, hc, hcell]
    exact perform_load s _ _
  case save slot =>
    rw [hmove, hc, Operand.read_slot]
    exact perform_save s _ _ slot
  case aimStack =>
    rw [hmove, hrsi, hrsp]
    exact perform_move s _ .rsi rfl
  case aimTape =>
    rw [hmove, hrsi, hp]
    exact perform_move s _ .rsi rfl
  case set r value =>
    rw [hmove, Operand.read_name, Operand.read_hex]
    exact perform_move s _ r rfl
  case call => rfl
  case test =>
    rw [hcompare, hbyte, Operand.read_hex]
    exact perform_test s _ _

end Opcode

end Brainfuck
