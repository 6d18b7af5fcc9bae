import Brainfuck.CommandLine.Options
import Brainfuck.Framework.Dispatch
import Brainfuck.Service.Handlers

/-!
# The service as an app

The places of the three handlers, and the fields by which requests to them are made up: their names, their defaults
and the least values of the numbers. How a request comes to its handler, and how lax the reading of a field is, the
framework decides.

The command that starts the service takes its host, its port and a level for the log.
-/

namespace Brainfuck.Service

open CommandLine (Given)
open Framework (Body Complaint Field Request Response complaints readField)

def readCode (fields : List (String × Field)) : Except Complaint (List Char) :=
  (readField fields "code" Field.asText []).map joinSource

def CheckRequest.read (body : Body) : Except (List Complaint) CheckRequest :=
  match body.fields with
  | .error found => .error found
  | .ok fields =>
    match readCode fields with
    | .ok code => .ok { code }
    | .error complaint => .error [complaint]

def CompileRequest.read (body : Body) : Except (List Complaint) CompileRequest :=
  match body.fields with
  | .error found => .error found
  | .ok fields =>
    match readCode fields, readField fields "template" Field.asBoolean true with
    | .ok code, .ok template => .ok { code, template }
    | code, template => .error (complaints code ++ complaints template)

def ExecuteRequest.read (body : Body) : Except (List Complaint) ExecuteRequest :=
  match body.fields with
  | .error found => .error found
  | .ok fields =>
    match readCode fields, readField fields "input" Field.asText [],
      readField fields "max_steps" (Field.asIntegerFrom 1) 1000000,
      readField fields "tape_window" (Field.asIntegerFrom 0) 10 with
    | .ok code, .ok input, .ok maxSteps, .ok tapeWindow => .ok { code, input, maxSteps, tapeWindow }
    | code, input, maxSteps, tapeWindow =>
      .error (complaints code ++ complaints input ++ complaints maxSteps ++ complaints tapeWindow)

/-- The service of a compiler. -/
def app (compiler : Compiler) : Framework.App Answer where
  handlers :=
    [("/api/validate".toList, fun body => (CheckRequest.read body).map checkProgram),
      ("/api/transpile".toList, fun body => (CompileRequest.read body).map (compileProgram compiler)),
      ("/api/run".toList, fun body => (ExecuteRequest.read body).map (executeProgram compiler))]
  status := Answer.status

def respond (compiler : Compiler) (request : Request) : Response Answer :=
  (app compiler).respond request

/-! ## The command -/

/-- Where and how the service is to run. -/
structure ServerSettings where
  host : Given (List Char) := .value "127.0.0.1".toList
  listenOn : Given Int := .value 8000
  logLevel : Given (List Char) := .value "info".toList
  deriving DecidableEq

def title : String := "bfnasm API"

def serverGrammar : CommandLine.Grammar ServerSettings where
  options :=
    [⟨["-h".toList, "--help".toList], .help⟩,
      ⟨["--host".toList], .text fun v s => { s with host := v }⟩,
      ⟨["--port".toList], .integer fun n s => { s with listenOn := n }⟩,
      ⟨["--log-level".toList], .text fun v s => { s with logLevel := v }⟩]

def readServerArguments (arguments : List (List Char)) :
    Except CommandLine.Stop ServerSettings :=
  serverGrammar.read {} arguments

end Brainfuck.Service
