import Brainfuck.Codegen.StandardRules

/-!
# Code generation

A text is cut into pieces from left to right. At each position every rule is asked for the longest
beginning it handles; the longest answer is taken, and of equally long ones that of the earliest
rule. The lines of the pieces follow one another. Fragments inside a piece are generated in the same
way with the same label counter.

Not modelled: the host bounds how deep calls may be nested, and by default gives up on loops nested some three
hundred deep. Here the nesting is bounded by the length of the text alone, so that `Generator.run` answers for
every text.
-/

namespace Brainfuck.Codegen

structure Selection where
  text : List Char
  rule : Rule

/-- The better of the choice so far and what a rule recognised: a non-empty text that is longer. -/
def Selection.better (best : Option Selection) (rule : Rule) :
    Option (List Char) → Option Selection
  | none | some [] => best
  | some text =>
    match best with
    | none => some ⟨text, rule⟩
    | some chosen => if chosen.text.length < text.length then some ⟨text, rule⟩ else best

def selectFrom (s : List Char) : (best : Option Selection) → List Rule →
    Except Failure (Option Selection)
  | best, [] => .ok best
  | best, rule :: others =>
    match rule.recognise s with
    | .error failure => .error failure
    | .ok recognised => selectFrom s (Selection.better best rule recognised) others

/-- The longest beginning of a text that one of the rules handles. -/
def select (rules : List Rule) (s : List Char) : Except Failure (Option Selection) :=
  selectFrom s none rules

structure Generator where
  rules : List Rule := Rule.standard
  convention : Convention := {}

/-- Generate piece after piece, from `offset` on, with `translate` for each piece. Every piece uses
up some of the text, so the length of the text is fuel enough. -/
def generatePieces (rules : List Rule) (translate : Rule → List Char → Gen (List Line)) :
    (fuel offset : Nat) → List Char → Gen (List Line)
  | _, _, [] => pure []
  | 0, _, _ :: _ => throw .tooDeep
  | fuel + 1, offset, c :: rest => do
    match select rules (c :: rest) with
    | .error failure => throw failure
    | .ok none => throw (.noMatch offset ((c :: rest).take 16))
    | .ok (some selection) =>
      let length := selection.text.length
      notePiece ⟨selection.rule.name, length, offset⟩
      let lines ← translate selection.rule selection.text
      let others ← generatePieces rules translate fuel (offset + length) ((c :: rest).drop length)
      pure (lines ++ others)

namespace Generator

/-- Generate a fragment in which fragments are nested at most `depth` deep. -/
def fragment (generator : Generator) : (depth : Nat) → List Char → Gen (List Line)
  | 0, _ => throw .tooDeep
  | depth + 1, text =>
    generatePieces generator.rules
      (fun rule piece => rule.translate generator.convention (generator.fragment depth) piece)
      text.length 0 text

/-- Translate a text by a given rule. A fragment of it is no longer than the text, so its length
bounds the nesting. -/
def translate (generator : Generator) (rule : Rule) (text : List Char) : Gen (List Line) :=
  rule.translate generator.convention (generator.fragment (text.length + 1)) text

/-- Generate the lines of a text, with label numbers from zero on. -/
def run (generator : Generator) (text : List Char) : Except Failure (List Line) × Progress :=
  (generator.fragment (text.length + 1) text).run.run {}

def generate (generator : Generator) (text : List Char) : Except Failure (List Line) :=
  (generator.run text).1

end Generator

end Brainfuck.Codegen
