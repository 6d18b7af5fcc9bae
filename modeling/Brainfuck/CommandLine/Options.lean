import Brainfuck.Text.Basic
import Brainfuck.Text.Numeral
import Brainfuck.Text.Quoted

/-!
# Command line options

Reading a list of arguments into settings.

* An option is called by its full name or, for names with two dashes, by a beginning that fits one
  name only. Its value is the next argument, or is attached to the name: behind `=`, or directly behind
  a name with one dash. What is attached to a flag with one dash calls further options by their
  letters.
* An attached `--` is no value: the option is called, and given nothing.
* Behind `--` every argument is an operand. So is an argument that looks like a negative number or
  holds a space, unless it calls an option.
* Options act in their order. Arguments that nothing takes are reported at the end, behind operands
  that are missing.
-/

namespace Brainfuck.CommandLine

/-- What an option is given: a value, or nothing where `--` stands in the place of the value. -/
inductive Given (α : Type) where
  | value (value : α)
  | nothing
  deriving DecidableEq

def Given.getD {α : Type} (given : Given α) (other : α) : α :=
  match given with
  | value v => v
  | nothing => other

inductive Effect (σ : Type) where
  /-- Ask for help and stop. -/
  | help
  /-- Change the settings. -/
  | flag (set : σ → σ)
  /-- Take a value. -/
  | text (set : Given (List Char) → σ → σ)
  /-- Take a value that is an integer. -/
  | integer (set : Given Int → σ → σ)

/-- An option: its names, each with one or two dashes in front, and what it does. -/
structure OptionSpec (σ : Type) where
  names : List (List Char)
  effect : Effect σ

structure OperandSpec (σ : Type) where
  name : List Char
  set : List Char → σ → σ

structure Grammar (σ : Type) where
  options : List (OptionSpec σ)
  operands : List (OperandSpec σ) := []

inductive UsageError where
  | ambiguous (argument : List Char) (names : List (List Char))
  | valueExpected (option : List Char)
  | valueIgnored (option value : List Char)
  | notAnInteger (option value : List Char)
  | missing (operands : List (List Char))
  | unrecognized (arguments : List (List Char))
  deriving DecidableEq

def commaList (texts : List (List Char)) : String :=
  String.ofList ([',', ' '].intercalate texts)

def spaceList (texts : List (List Char)) : String :=
  String.ofList ([' '].intercalate texts)

def UsageError.words : UsageError → String
  | ambiguous argument names =>
    s!"ambiguous option: {String.ofList argument} could match {commaList names}"
  | valueExpected option => s!"argument {String.ofList option}: expected one argument"
  | valueIgnored option value =>
    s!"argument {String.ofList option}: ignored explicit argument {Text.quoted value}"
  | notAnInteger option value =>
    s!"argument {String.ofList option}: invalid int value: {Text.quoted value}"
  | missing operands => s!"the following arguments are required: {commaList operands}"
  | unrecognized arguments => s!"unrecognized arguments: {spaceList arguments}"

/-- The message of the error: its words without line feeds at the end. -/
def UsageError.message (error : UsageError) : String :=
  String.ofList (Text.dropEndWhile (· = '\n') error.words.toList)

inductive Stop where
  | help
  | error (error : UsageError)
  deriving DecidableEq

variable {σ : Type}

def OptionSpec.label (option : OptionSpec σ) : List Char :=
  ['/'].intercalate option.names

def OptionSpec.takesValue (option : OptionSpec σ) : Bool :=
  match option.effect with
  | .text _ | .integer _ => true
  | .help | .flag _ => false

def Grammar.named (grammar : Grammar σ) : List (List Char × OptionSpec σ) :=
  grammar.options.flatMap fun option => option.names.map (·, option)

def Grammar.option? (grammar : Grammar σ) (name : List Char) : Option (OptionSpec σ) :=
  grammar.named.lookup name

/-- What an argument is. The text attached to the name of an option is kept apart. -/
inductive Token (σ : Type) where
  | operand (text : List Char)
  | separator
  | option (option : OptionSpec σ) (oneDash : Bool) (attached : Option (List Char))
  | unknown (text : List Char)

def splitEquals (s : List Char) : List Char × Option (List Char) :=
  match s.dropWhile (· ≠ '=') with
  | [] => (s, none)
  | _ :: value => (s.takeWhile (· ≠ '='), some value)

def isDecimal (c : Char) : Bool :=
  (Text.digitValue? c).isSome

/-- Whether an argument looks like a negative number: a dash, then digits, or digits that may be
missing, a point, and digits. A line feed at the end does not matter. -/
def looksNegative (s : List Char) : Bool :=
  let body := if s.getLast? = some '\n' then s.dropLast else s
  match body with
  | '-' :: rest =>
    match rest.dropWhile isDecimal with
    | [] => !rest.isEmpty
    | '.' :: decimals => !decimals.isEmpty && decimals.all isDecimal
    | _ => false
  | _ => false

def isOneDash (name : List Char) : Bool :=
  match name with
  | '-' :: '-' :: _ => false
  | _ => true

/-- The readings of an argument as the beginning of an option's name, or as a name with one dash and
something attached. -/
def Grammar.readings (grammar : Grammar σ) (s : List Char) :
    List (List Char × OptionSpec σ × Option (List Char)) :=
  if isOneDash s then
    (grammar.named.filter fun (name, _) => name == s.take 2).map fun (name, option) =>
      (name, option, some (s.drop 2))
  else
    let (start, value) := splitEquals s
    (grammar.named.filter fun (name, _) => start.isPrefixOf name).map fun (name, option) =>
      (name, option, value)

/-- An argument with a dash in front that is not the name of an option. -/
def Grammar.classifyOther (grammar : Grammar σ) (s : List Char) : Except UsageError (Token σ) :=
  match grammar.readings s with
  | [(name, option, attached)] => .ok (.option option (isOneDash name) attached)
  | [] =>
    if looksNegative s || s.contains ' ' then .ok (.operand s) else .ok (.unknown s)
  | several => .error (.ambiguous s (several.map (·.1)))

def Grammar.classify (grammar : Grammar σ) (s : List Char) : Except UsageError (Token σ) :=
  match s with
  | '-' :: _ :: _ =>
    match grammar.option? s with
    | some option => .ok (.option option (isOneDash s) none)
    | none =>
      match splitEquals s with
      | (name, some value) =>
        match grammar.option? name with
        | some option => .ok (.option option (isOneDash name) (some value))
        | none => grammar.classifyOther s
      | (_, none) => grammar.classifyOther s
  | _ => .ok (.operand s)

def Grammar.tokens (grammar : Grammar σ) : List (List Char) → Except UsageError (List (Token σ))
  | [] => .ok []
  | s :: rest =>
    if s = ['-', '-'] then .ok (.separator :: rest.map .operand)
    else do
      let token ← grammar.classify s
      let others ← grammar.tokens rest
      pure (token :: others)

def Token.operandText : Token σ → List Char
  | .operand text => text
  | .unknown text => text
  | _ => ['-', '-']

/-- What a call of options amounts to behind its flags: an option with its value, or an option that
waits for the next argument. -/
inductive CallEnd (σ : Type) where
  | value (option : OptionSpec σ) (value : List Char)
  | waiting (option : OptionSpec σ)

/-- Follow the text attached to an option with one dash. An option that takes a value takes all of it.
Behind a flag its first letter is the name of the next option. -/
def Grammar.cluster (grammar : Grammar σ) :
    (attached : List Char) → OptionSpec σ → Except UsageError (List (OptionSpec σ) × CallEnd σ)
  | [], option =>
    if option.takesValue then .ok ([], .value option [])
    else .error (.valueIgnored option.label [])
  | c :: rest, option =>
    if option.takesValue then .ok ([], .value option (c :: rest))
    else match grammar.option? ['-', c] with
      | none => .error (.valueIgnored option.label (c :: rest))
      | some next =>
        if rest.isEmpty then .ok ([option], .waiting next)
        else do
          let (flags, last) ← grammar.cluster rest next
          pure (option :: flags, last)

def Grammar.call (grammar : Grammar σ) (option : OptionSpec σ) (oneDash : Bool) :
    (attached : Option (List Char)) → Except UsageError (List (OptionSpec σ) × CallEnd σ)
  | none => .ok ([], .waiting option)
  | some text =>
    if oneDash then grammar.cluster text option
    else if option.takesValue then .ok ([], .value option text)
    else .error (.valueIgnored option.label text)

/-- The effect of an option with its value; a flag looks at none, and `--` is no value. -/
def OptionSpec.apply (option : OptionSpec σ) (value : List Char) (settings : σ) :
    Except Stop σ :=
  match option.effect with
  | .help => .error .help
  | .flag set => .ok (set settings)
  | .text set => .ok (set (if value = ['-', '-'] then .nothing else .value value) settings)
  | .integer set =>
    if value = ['-', '-'] then .ok (set .nothing settings)
    else match Text.integer? value with
      | some n => .ok (set (.value n) settings)
      | none => .error (.error (.notAnInteger option.label value))

/-- The state of reading: the settings so far, the operands still missing, and the arguments nothing
took. -/
structure Reading (σ : Type) where
  settings : σ
  pending : List (OperandSpec σ)
  extras : List (List Char) := []

def Reading.applyFlags (reading : Reading σ) (flags : List (OptionSpec σ)) :
    Except Stop (Reading σ) := do
  let settings ← flags.foldlM (fun settings option => option.apply [] settings) reading.settings
  pure { reading with settings }

def Reading.applyValue (reading : Reading σ) (option : OptionSpec σ) (value : List Char) :
    Except Stop (Reading σ) := do
  let settings ← option.apply value reading.settings
  pure { reading with settings }

/-- Give an argument to the first missing operand, if there is one. -/
def Reading.take (reading : Reading σ) (text : List Char) : Reading σ :=
  match reading.pending with
  | [] => { reading with extras := reading.extras ++ [text] }
  | operand :: others =>
    { reading with settings := operand.set text reading.settings, pending := others }

/-- Read the arguments in their order. A separator next to an operand that is taken belongs to it. -/
def Grammar.consume (grammar : Grammar σ) : List (Token σ) → Reading σ → Except Stop (Reading σ)
  | [], reading => .ok reading
  | .unknown text :: rest, reading =>
    grammar.consume rest { reading with extras := reading.extras ++ [text] }
  | .operand text :: .separator :: rest, reading =>
    if reading.pending.isEmpty then
      .ok { reading with
        extras := reading.extras ++ text :: ['-', '-'] :: rest.map Token.operandText }
    else grammar.consume rest (reading.take text)
  | .operand text :: rest, reading => grammar.consume rest (reading.take text)
  | .separator :: .operand text :: rest, reading =>
    if reading.pending.isEmpty then
      .ok { reading with
        extras := reading.extras ++ ['-', '-'] :: text :: rest.map Token.operandText }
    else grammar.consume rest (reading.take text)
  | .separator :: rest, reading =>
    .ok { reading with extras := reading.extras ++ ['-', '-'] :: rest.map Token.operandText }
  | .option option oneDash attached :: rest, reading =>
    match grammar.call option oneDash attached with
    | .error e => .error (.error e)
    | .ok (flags, .value last value) => do
      let reading ← reading.applyFlags flags
      let reading ← reading.applyValue last value
      grammar.consume rest reading
    | .ok (flags, .waiting last) =>
      if last.takesValue then
        match rest with
        | .operand value :: rest => do
          let reading ← reading.applyFlags flags
          let reading ← reading.applyValue last value
          grammar.consume rest reading
        | _ => .error (.error (.valueExpected last.label))
      else do
        let reading ← reading.applyFlags (flags ++ [last])
        grammar.consume rest reading

/-- Read arguments into settings, from the settings for no arguments on. -/
def Grammar.read (grammar : Grammar σ) (initial : σ) (arguments : List (List Char)) :
    Except Stop σ :=
  match grammar.tokens arguments with
  | .error e => .error (.error e)
  | .ok tokens => do
    let reading ← grammar.consume tokens ⟨initial, grammar.operands, []⟩
    if !reading.pending.isEmpty then .error (.error (.missing (reading.pending.map (·.name))))
    else if !reading.extras.isEmpty then .error (.error (.unrecognized reading.extras))
    else pure reading.settings

end Brainfuck.CommandLine
