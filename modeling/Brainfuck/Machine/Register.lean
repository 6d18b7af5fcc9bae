/-!
# Registers

The sixteen general registers, the names of their low bytes, and a register file. A run may bring a
further register under a name of its own.
-/

namespace Brainfuck.Machine

inductive Register where
  | rax | rbx | rcx | rdx | rsi | rdi | rsp | rbp
  | r8 | r9 | r10 | r11 | r12 | r13 | r14 | r15
  deriving DecidableEq

namespace Register

def all : List Register :=
  [rax, rbx, rcx, rdx, rsi, rdi, rsp, rbp, r8, r9, r10, r11, r12, r13, r14, r15]

def name : Register → List Char
  | rax => "rax".toList
  | rbx => "rbx".toList
  | rcx => "rcx".toList
  | rdx => "rdx".toList
  | rsi => "rsi".toList
  | rdi => "rdi".toList
  | rsp => "rsp".toList
  | rbp => "rbp".toList
  | r8 => "r8".toList
  | r9 => "r9".toList
  | r10 => "r10".toList
  | r11 => "r11".toList
  | r12 => "r12".toList
  | r13 => "r13".toList
  | r14 => "r14".toList
  | r15 => "r15".toList

def index : Register → Fin 16
  | rax => 0
  | rbx => 1
  | rcx => 2
  | rdx => 3
  | rsi => 4
  | rdi => 5
  | rsp => 6
  | rbp => 7
  | r8 => 8
  | r9 => 9
  | r10 => 10
  | r11 => 11
  | r12 => 12
  | r13 => 13
  | r14 => 14
  | r15 => 15

def ofName? (s : List Char) : Option Register :=
  all.find? (·.name == s)

def lowByteNames : List (List Char × Register) :=
  [("al".toList, rax), ("bl".toList, rbx), ("cl".toList, rcx), ("dl".toList, rdx),
    ("sil".toList, rsi), ("dil".toList, rdi)]

/-- The register whose low byte has a given name. -/
def ofLowByteName? (s : List Char) : Option Register :=
  lowByteNames.lookup s

theorem index_injective {r r' : Register} (h : r.index = r'.index) : r = r' := by
  revert h
  cases r <;> cases r' <;> decide

theorem ofName?_name (r : Register) : ofName? r.name = some r := by
  cases r <;> rfl

end Register

/-- A register that an operand can name: a general one or the further one. -/
inductive RegisterRef where
  | general (r : Register)
  | further
  deriving DecidableEq

/-- The register with a given name, where the further register has its own name. -/
def RegisterRef.ofName? (furtherName : Option (List Char)) (s : List Char) : Option RegisterRef :=
  if furtherName = some s then some .further else (Register.ofName? s).map .general

structure Registers where
  general : Vector Nat 16 := Vector.replicate 16 0
  furtherName : Option (List Char) := none
  furtherValue : Nat := 0
  deriving DecidableEq

namespace Registers

def get (registers : Registers) (r : Register) : Nat :=
  registers.general[r.index]

def set (registers : Registers) (r : Register) (value : Nat) : Registers :=
  { registers with general := registers.general.set r.index value }

def getRef (registers : Registers) : RegisterRef → Nat
  | .general r => registers.get r
  | .further => registers.furtherValue

def setRef (registers : Registers) (ref : RegisterRef) (value : Nat) : Registers :=
  match ref with
  | .general r => registers.set r value
  | .further => { registers with furtherValue := value }

/-- Set the register with a given name; a name that no general register has becomes that of the
further register. -/
def setNamed (registers : Registers) (name : List Char) (value : Nat) : Registers :=
  match Register.ofName? name with
  | some r => registers.set r value
  | none => { registers with furtherName := some name, furtherValue := value }

def getNamed? (registers : Registers) (name : List Char) : Option Nat :=
  (RegisterRef.ofName? registers.furtherName name).map registers.getRef

def toList (registers : Registers) : List (List Char × Nat) :=
  Register.all.map (fun r => (r.name, registers.get r)) ++
    (registers.furtherName.map fun name => (name, registers.furtherValue)).toList

@[simp]
theorem get_set (registers : Registers) (r r' : Register) (value : Nat) :
    (registers.set r value).get r' = if r = r' then value else registers.get r' := by
  by_cases h : r = r'
  · subst h
    simp [get, set]
  · have hindex : r.index.val ≠ r'.index.val := fun e => h (Register.index_injective (Fin.ext e))
    simp [get, set, h, Vector.getElem_set_ne _ _ hindex]

end Registers

end Brainfuck.Machine
