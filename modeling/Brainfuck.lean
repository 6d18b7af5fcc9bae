import Brainfuck.Assembly
import Brainfuck.Budget
import Brainfuck.Cells
import Brainfuck.Codegen.Generator
import Brainfuck.Codegen.Recogniser
import Brainfuck.Codegen.Rule
import Brainfuck.Codegen.StandardRules
import Brainfuck.CommandLine.Command
import Brainfuck.CommandLine.Files
import Brainfuck.CommandLine.Options
import Brainfuck.Compiler
import Brainfuck.Framework.Address
import Brainfuck.Framework.Dispatch
import Brainfuck.Framework.Field
import Brainfuck.Interpreter.Basic
import Brainfuck.Interpreter.Session
import Brainfuck.Machine.Code
import Brainfuck.Machine.Emulator
import Brainfuck.Machine.Fault
import Brainfuck.Machine.Operand
import Brainfuck.Machine.Register
import Brainfuck.Machine.State
import Brainfuck.Machine.Step
import Brainfuck.Main
import Brainfuck.Proofs.Acceptance
import Brainfuck.Proofs.Assembling
import Brainfuck.Proofs.BatchedReads
import Brainfuck.Proofs.BigStep
import Brainfuck.Proofs.Block
import Brainfuck.Proofs.BracketMatching
import Brainfuck.Proofs.CancellingText
import Brainfuck.Proofs.DeadCode
import Brainfuck.Proofs.Effects
import Brainfuck.Proofs.Emulation
import Brainfuck.Proofs.Endpoints
import Brainfuck.Proofs.FailedInstructions
import Brainfuck.Proofs.Fragmentation
import Brainfuck.Proofs.Generation
import Brainfuck.Proofs.Grammar
import Brainfuck.Proofs.GreedyPartition
import Brainfuck.Proofs.Interpretation
import Brainfuck.Proofs.LabelSupply
import Brainfuck.Proofs.Languages
import Brainfuck.Proofs.Lockstep
import Brainfuck.Proofs.LoopLabels
import Brainfuck.Proofs.LowMemory
import Brainfuck.Proofs.Matching
import Brainfuck.Proofs.Numerals
import Brainfuck.Proofs.Opcode
import Brainfuck.Proofs.Operands
import Brainfuck.Proofs.Placeholders
import Brainfuck.Proofs.Placement
import Brainfuck.Proofs.Program
import Brainfuck.Proofs.ReadBack
import Brainfuck.Proofs.Recognition
import Brainfuck.Proofs.Reflection
import Brainfuck.Proofs.RegisterChoice
import Brainfuck.Proofs.Rendering
import Brainfuck.Proofs.RoundTrip
import Brainfuck.Proofs.RuleOrder
import Brainfuck.Proofs.Safety
import Brainfuck.Proofs.ScratchBuffers
import Brainfuck.Proofs.Simulation
import Brainfuck.Proofs.Splicing
import Brainfuck.Proofs.StackDiscipline
import Brainfuck.Proofs.Startup
import Brainfuck.Proofs.StateInvariant
import Brainfuck.Proofs.StepBudget
import Brainfuck.Proofs.Steps
import Brainfuck.Proofs.Substitution
import Brainfuck.Proofs.TapeClearing
import Brainfuck.Proofs.TapeWindow
import Brainfuck.Proofs.Text
import Brainfuck.Proofs.Tracing
import Brainfuck.Proofs.WholeProgram
import Brainfuck.Proofs.WrittenLines
import Brainfuck.Service.App
import Brainfuck.Service.Handlers
import Brainfuck.Source
import Brainfuck.Template
import Brainfuck.Text.Basic
import Brainfuck.Text.Casing
import Brainfuck.Text.Encoding
import Brainfuck.Text.Numeral
import Brainfuck.Text.Quoted
