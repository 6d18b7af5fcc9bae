import Brainfuck.Codegen.Generator
import Brainfuck.Source
import Brainfuck.Template

/-!
# The compiler

From a source text to assembly. Line breaks are dropped, the program is checked, and only then code
is generated; an empty program gives no lines. `Compiler.lines` gives the bare lines, and
`Compiler.assembly` the whole program text, whose lines are generated before the template is looked
at.
-/

namespace Brainfuck

inductive Remark where
  /-- A rule was chosen for a piece of a fragment. -/
  | matched (piece : Codegen.Piece)
  /-- A program was translated. -/
  | translated (operators lines : Nat)
  deriving DecidableEq

/-- A compiler: the target convention, the rules, and the program template. -/
structure Compiler where
  convention : Convention := {}
  rules : List Codegen.Rule := Codegen.Rule.standard
  template : List Char := Template.bundled

namespace Compiler

inductive Failure where
  | flaw (flaw : Flaw)
  | generation (failure : Codegen.Failure)
  | template (failure : Template.Failure)
  deriving DecidableEq

def Failure.message : Failure → String
  | flaw f => f.message
  | generation f => f.message
  | template f => f.message

def generator (compiler : Compiler) : Codegen.Generator where
  rules := compiler.rules
  convention := compiler.convention

/-- The lines of a source, with the remarks made on the way. -/
def linesWithRemarks (compiler : Compiler) (source : List Char) :
    Except Failure (List Line) × List Remark :=
  let text := joinSource source
  if text.isEmpty then (.ok [], [])
  else match ensureProgram text with
    | .error flaw => (.error (.flaw flaw), [])
    | .ok () =>
      let (result, progress) := compiler.generator.run text
      let chosen := progress.pieces.toList.map Remark.matched
      match result with
      | .error failure => (.error (.generation failure), chosen)
      | .ok lines => (.ok lines, chosen ++ [.translated text.length lines.length])

def lines (compiler : Compiler) (source : List Char) : Except Failure (List Line) :=
  (compiler.linesWithRemarks source).1

def lineTexts (compiler : Compiler) (source : List Char) : Except Failure (List (List Char)) :=
  (compiler.lines source).map (·.map Line.text)

def fillTemplate (compiler : Compiler) (texts : List (List Char)) : Except Failure (List Char) :=
  (Template.fill compiler.template texts compiler.convention).mapError .template

def assembly (compiler : Compiler) (source : List Char) : Except Failure (List Char) :=
  compiler.lineTexts source >>= compiler.fillTemplate

end Compiler

end Brainfuck
