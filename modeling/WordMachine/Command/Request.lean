import WordMachine.Settings.Basic
import WordMachine.Output.Report
import WordMachine.Text.Fields

/-!
# Requests of the command line

The command `vsm` runs a program or lists it:

    vsm
    vsm run [FILE] [-c PATH] [--max-steps N] [--trace] [--stats] [--stats-sections NAME…]
    vsm disasm [FILE]

An argument that starts with a dash is an option, and what follows a bare `--` is none.  The value
of an option stands behind an equals sign or in the next argument; a short option may also have it
directly behind its letter.  Names of sections may be given several at a time, up to the next
option or between commas, and that option may be repeated.  All else may be given once.

The simulator only declares these arguments.  How they are read is the documented behaviour of the library
that parses them, which is no part of the simulator; so are the texts with which it answers a request for
help and wrong arguments, and these are a parameter, the `Manual`.
-/

namespace WordMachine

namespace Command

/-! ### Arguments -/

/-- The forms of an argument. -/
inductive Argument where
  /-- The mark after which no argument is an option. -/
  | separator
  /-- An option with a long name, and the value behind an equals sign. -/
  | long (name : String) (value : Option String)
  /-- An option with a letter for a name, and what stands behind the letter. -/
  | short (letter : Char) (rest : List Char)
  /-- Anything else; a single dash too. -/
  | plain (text : String)
deriving DecidableEq, Repr

namespace Argument

/-- A long option, given what stands behind its dashes. -/
def ofLong (cs : List Char) : Argument :=
  let name := String.ofList (cs.takeWhile (· ≠ '='))
  match cs.dropWhile (· ≠ '=') with
  | [] => long name none
  | _ :: value => long name (some (String.ofList value))

/-- The form of an argument. -/
def ofString (text : String) : Argument :=
  match text.toList with
  | ['-', '-'] => separator
  | '-' :: '-' :: cs => ofLong cs
  | '-' :: c :: cs => short c cs
  | _ => plain text

end Argument

/-- The value of a short option, if one stands behind its letter. -/
def attachedValue? : List Char → Option String
  | [] => none
  | '=' :: cs => some (String.ofList cs)
  | cs => some (String.ofList cs)

/-! ### Requests -/

/-- What can be wrong with arguments. -/
inductive UsageError where
  /-- An argument that has no meaning where it stands. -/
  | unexpected (argument : String)
  /-- An option whose value is missing. -/
  | missingValue (option : String)
  /-- A value that an option does not take. -/
  | invalidValue (option value : String)
  /-- An option given twice. -/
  | repeated (option : String)
deriving DecidableEq, Repr

/-- The texts of the library that parses arguments. -/
structure Manual where
  /-- The answer to a request for help. -/
  help : String := ""
  /-- What is told of wrong arguments. -/
  complaint : UsageError → String := fun _ => ""

/-- What to run, and how. -/
structure RunOptions where
  /-- The file with the program and its input. -/
  file : Option String := none
  /-- The file with the settings. -/
  settingsFile : Option String := none
  /-- The limit on the number of instructions. -/
  stepLimit : Option Nat := none
  /-- Whether every executed instruction is logged. -/
  tracing : Bool := false
  /-- Whether a report of the tally is printed. -/
  report : Bool := false
  /-- The sections of the report; naming one asks for the report. -/
  sections : List String := []
deriving DecidableEq, Repr

/-- What the command line asks for. -/
inductive Request where
  /-- Run a program. -/
  | run (o : RunOptions)
  /-- List a program. -/
  | list (file : Option String)
  /-- Show the version. -/
  | version
  /-- Show how the command is used. -/
  | help
deriving DecidableEq, Repr

/-! ### Values of options -/

/-- The options that take one value. -/
inductive ValueOption where
  | settingsFile
  | stepLimit
deriving DecidableEq, Repr

/-- The name of an option. -/
def ValueOption.name : ValueOption → String
  | settingsFile => "--config"
  | stepLimit => "--max-steps"

/-- The size that a text denotes; a plus sign may stand in front. -/
def size? (text : String) : Option Nat :=
  (Numeral.ofPlusDigits? text.toList).filter (· < sizeBound)

namespace RunOptions

/-- Takes the file to run. -/
def takeFile (o : RunOptions) (path : String) : Except UsageError RunOptions :=
  if o.file.isSome then .error (.unexpected path)
  else if path.isEmpty then .error (.invalidValue "[FILE]" path)
  else .ok { o with file := some path }

/-- Takes the value of an option. -/
def takeValue (o : RunOptions) (value : String) : ValueOption → Except UsageError RunOptions
  | .settingsFile =>
    if o.settingsFile.isSome then .error (.repeated "--config")
    else if value.isEmpty then .error (.invalidValue "--config" value)
    else .ok { o with settingsFile := some value }
  | .stepLimit =>
    if o.stepLimit.isSome then .error (.repeated "--max-steps")
    else
      match size? value with
      | none => .error (.invalidValue "--max-steps" value)
      | some n => .ok { o with stepLimit := some n }

/-- Takes names of sections, which stand between commas. -/
def takeSections (o : RunOptions) (value : String) : Except UsageError RunOptions :=
  let names := fields ',' value
  if names.all Report.sectionNames.contains then
    .ok { o with sections := o.sections ++ names }
  else
    .error (.invalidValue "--stats-sections" value)

/-- Takes the option that switches tracing on. -/
def takeTracing (o : RunOptions) : Except UsageError RunOptions :=
  if o.tracing then .error (.repeated "--trace") else .ok { o with tracing := true }

/-- Takes the option that asks for a report. -/
def takeReport (o : RunOptions) : Except UsageError RunOptions :=
  if o.report then .error (.repeated "--stats") else .ok { o with report := true }

end RunOptions

/-! ### Arguments of a run -/

/-- What the next plain argument is for. -/
inductive Awaited where
  /-- It is the file. -/
  | file
  /-- It is the value of an option. -/
  | value (option : ValueOption)
  /-- It names sections, and whether some have been named since the option. -/
  | sections (named : Bool)
deriving DecidableEq, Repr

/-- The error if no more values follow where one is due. -/
def Awaited.settle : Awaited → Except UsageError Unit
  | file | sections true => .ok ()
  | value option => .error (.missingValue option.name)
  | sections false => .error (.missingValue "--stats-sections")

/-- What an option leads to. -/
inductive OptionEffect where
  /-- Other options hold, and something is awaited. -/
  | go (o : RunOptions) (next : Awaited)
  /-- The command is explained instead. -/
  | explain

namespace RunOptions

/-- Takes an option with one value, which may be attached. -/
def takeOption (o : RunOptions) (option : ValueOption) :
    Option String → Except UsageError OptionEffect
  | none => .ok (.go o (.value option))
  | some value => (o.takeValue value option).map (.go · .file)

/-- Takes an option without a value. -/
def takeFlag (name : String) (take : Except UsageError RunOptions) :
    Option String → Except UsageError OptionEffect
  | none => take.map (.go · .file)
  | some value => .error (.invalidValue name value)

/-- Takes an option with a long name. -/
def takeLong (o : RunOptions) (name : String) (value : Option String) :
    Except UsageError OptionEffect :=
  match name with
  | "config" => o.takeOption .settingsFile value
  | "max-steps" => o.takeOption .stepLimit value
  | "trace" => takeFlag "--trace" o.takeTracing value
  | "stats" => takeFlag "--stats" o.takeReport value
  | "stats-sections" =>
    match value with
    | none => .ok (.go o (.sections false))
    | some names => (o.takeSections names).map (.go · .file)
  | "help" =>
    match value with
    | none => .ok .explain
    | some v => .error (.invalidValue "--help" v)
  | _ => .error (.unexpected ("--" ++ name))

/-- Takes an option with a letter for a name. -/
def takeShort (o : RunOptions) (letter : Char) (rest : List Char) :
    Except UsageError OptionEffect :=
  match letter with
  | 'c' => o.takeOption .settingsFile (attachedValue? rest)
  | 'h' => .ok .explain
  | _ => .error (.unexpected (String.ofList ['-', letter]))

/-- Takes a plain argument for what is awaited, and tells what is awaited next. -/
def takePlain (o : RunOptions) (text : String) :
    Awaited → Except UsageError (RunOptions × Awaited)
  | .file => (o.takeFile text).map (·, .file)
  | .value option => (o.takeValue text option).map (·, .file)
  | .sections _ => (o.takeSections text).map (·, .sections true)

/-- Takes arguments none of which is an option. -/
def takeFiles (o : RunOptions) : List String → Except UsageError RunOptions
  | [] => .ok o
  | path :: rest =>
    match o.takeFile path with
    | .error e => .error e
    | .ok o => o.takeFiles rest

end RunOptions

/-- Reads the arguments of a run. -/
def readRun (o : RunOptions) (awaited : Awaited) : List String → Except UsageError Request
  | [] => awaited.settle.map fun _ => .run o
  | arg :: rest =>
    match Argument.ofString arg with
    | .plain text =>
      match o.takePlain text awaited with
      | .error e => .error e
      | .ok (o, awaited) => readRun o awaited rest
    | .separator => awaited.settle.bind fun _ => (o.takeFiles rest).map .run
    | .long name value =>
      match awaited.settle.bind fun _ => o.takeLong name value with
      | .error e => .error e
      | .ok .explain => .ok .help
      | .ok (.go o awaited) => readRun o awaited rest
    | .short letter more =>
      match awaited.settle.bind fun _ => o.takeShort letter more with
      | .error e => .error e
      | .ok .explain => .ok .help
      | .ok (.go o awaited) => readRun o awaited rest

/-! ### Arguments of the other requests -/

/-- Reads the arguments of a listing, which takes a file and no options. -/
def readList (o : RunOptions) : List String → Except UsageError Request
  | [] => .ok (.list o.file)
  | arg :: rest =>
    match Argument.ofString arg with
    | .plain text =>
      match o.takeFile text with
      | .error e => .error e
      | .ok o => readList o rest
    | .separator => (o.takeFiles rest).map (.list ·.file)
    | .long "help" none => .ok .help
    | .short 'h' _ => .ok .help
    | _ => .error (.unexpected arg)

/-- Reads the arguments of a request for help, which may name what is to be explained. -/
def readHelp : List String → Except UsageError Request
  | [] | ["run"] | ["disasm"] | ["help"] => .ok .help
  | arg :: _ => .error (.unexpected arg)

/-- Reads the arguments of the command. -/
def Request.ofArguments : List String → Except UsageError Request
  | [] | ["--"] => .ok (.run {})
  | "run" :: rest => readRun {} .file rest
  | "disasm" :: rest => readList {} rest
  | "help" :: rest => readHelp rest
  | arg :: _ =>
    match Argument.ofString arg with
    | .long "version" none | .short 'V' _ => .ok .version
    | .long "help" none | .short 'h' _ => .ok .help
    | _ => .error (.unexpected arg)

end Command

end WordMachine
