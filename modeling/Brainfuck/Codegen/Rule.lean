import Brainfuck.Assembly
import Brainfuck.Text.Quoted

/-!
# Rules

A rule recognises a beginning of the remaining program and translates it into lines. Rules translate
inside `Gen`: a failure keeps the progress made so far, so that label numbers taken before it are
never given out again.
-/

namespace Brainfuck.Codegen

inductive Failure where
  /-- No rule accepts the text at an offset of the fragment at hand; the text is cut to its first
  sixteen characters. -/
  | noMatch (offset : Nat) (text : List Char)
  /-- A rule that leaves its work open was asked to do it. -/
  | notImplemented
  /-- Fragments were nested deeper than foreseen. -/
  | tooDeep
  deriving DecidableEq

def Failure.message : Failure → String
  | noMatch offset text =>
    s!"No pattern matches the sequence at offset {offset}: " ++ Text.quoted text
  | notImplemented => ""
  | tooDeep => "Fragments are nested too deeply"

structure Piece where
  rule : String
  length : Nat
  offset : Nat
  deriving DecidableEq

/-- The state of code generation: the next free label number and the pieces chosen so far, each
before the pieces inside it. -/
structure Progress where
  nextLabel : Nat := 0
  pieces : Array Piece := #[]
  deriving DecidableEq

/-- Code generation: computations that use up label numbers and may fail. -/
abbrev Gen (α : Type) : Type :=
  ExceptT Failure (StateM Progress) α

def freshLabel : Gen Nat :=
  modifyGet fun progress =>
    (progress.nextLabel, { progress with nextLabel := progress.nextLabel + 1 })

def notePiece (piece : Piece) : Gen Unit :=
  modify fun progress => { progress with pieces := progress.pieces.push piece }

/-- A rule. `translate` is given the generator for the fragments inside its text. -/
structure Rule where
  /-- The name of the family the rule belongs to. -/
  kind : String
  name : String
  recognise : List Char → Except Failure (Option (List Char))
  translate : Convention → (List Char → Gen (List Line)) → List Char → Gen (List Line)

def Rule.description (rule : Rule) : String :=
  s!"<{rule.kind} " ++ Text.quoted rule.name.toList ++ ">"

end Brainfuck.Codegen
