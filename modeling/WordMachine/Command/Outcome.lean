import WordMachine.Command.Request
import WordMachine.Bench.Loading
import WordMachine.Host.Directory
import WordMachine.Log.Setting
import WordMachine.Output.Dump
import WordMachine.Settings.Document

/-!
# Outcomes of the command line

A request is first performed and then told.  Performing it opens the files, loads the program and
runs it, and may go on forever; telling it turns what has come about into an exit code and the text
on the two output streams.  The two are apart because a report shows how long performing took.

The output of the program comes first on standard output, and the dump follows it.  A fault of the
program is told on standard error and its dump is printed all the same; a failure of the host ends
everything.  Standard error shows the log lines, then the failure, then the report.
-/

namespace WordMachine

namespace Command

/-- What the command finds around it. -/
structure Surroundings where
  /-- What opening a path yields. -/
  openPath : String → Opened
  /-- The reads of standard input. -/
  input : Script
  /-- The setting that says which events are shown, if there is one. -/
  logSetting : Option String
  /-- The texts about the arguments. -/
  manual : Manual := {}

/-- The exit code of the command and what it has written. -/
structure Outcome where
  code : Nat
  stdout : String := ""
  stderr : String := ""
deriving DecidableEq, Repr

/-- The line that tells an error. -/
def errorLine (text : String) : String :=
  "error: " ++ text ++ "\n"

/-! ### Performing -/

/-- What has come about when a request has been performed. -/
inductive Performance where
  /-- There was nothing to run or to list, for the reason told. -/
  | refused (reason : String)
  /-- Some text is to be shown on standard output. -/
  | shown (text : String)
  /-- A program was read, or not, for listing; `log` are the events on the way. -/
  | read (result : Except Failure (List Word)) (log : List Event)
  /-- A program was loaded and run. -/
  | ran (settings : Settings) (result : Except Failure Nat) (bench : Bench StreamConsole)

/-- The settings in the file that the options name, or the standard ones. -/
def settingsGiven (w : Surroundings) (o : RunOptions) : Except String Settings :=
  match o.settingsFile with
  | none => .ok .standard
  | some path =>
    match Settings.ofOpened (w.openPath path) with
    | .ok s => .ok s
    | .error e => .error (path ++ ": " ++ e.message)

/-- The settings that hold when options override those given. -/
def override (s : Settings) (o : RunOptions) : Settings :=
  { s with
    stepLimit := o.stepLimit.or s.stepLimit
    tracing := o.tracing || s.tracing }

/-- The input of the file named, or standard input. -/
def inputFrom (w : Surroundings) : Option String → Except PathFault Script
  | none => .ok w.input
  | some path => (w.openPath path).script

/-- The events that opening the file of a run leads to. -/
def openEvents : Option String → Array Event
  | none => #[]
  | some path => #[.fileOpened path]

/-- Runs a program. -/
def performRun (patience : Nat) (w : Surroundings) (o : RunOptions) : Option Performance :=
  match settingsGiven w o with
  | .error reason => some (.refused reason)
  | .ok given =>
    let s := override given o
    match inputFrom w o.file with
    | .error why => some (.refused why.failure.message)
    | .ok script =>
      let bench := { Bench.powerOn s ({ script } : StreamConsole) with log := openEvents o.file }
      (bench.loadAndRun patience s).map fun r => .ran s r.1 r.2

/-- Reads a program in order to list it. -/
def performList (w : Surroundings) (file : Option String) : Performance :=
  match inputFrom w file with
  | .error why => .refused why.text
  | .ok script =>
    match Program.read ({ script } : StreamConsole) with
    | (.ok words, _) => .read (.ok words) [Program.readEvent words]
    | (.error e, _) => .read (.error e) []

/-- The version of the command. -/
def version : String :=
  "vsm 0.3.0\n"

/-- Performs a request.  Only a run without a limit depends on `patience`. -/
def perform (patience : Nat) (w : Surroundings) : Request → Option Performance
  | .run o => performRun patience w o
  | .list file => some (performList w file)
  | .version => some (.shown version)
  | .help => some (.shown w.manual.help)

/-! ### Telling -/

/-- Whether the options ask for a report. -/
def wantsReport (o : RunOptions) : Bool :=
  o.report || !o.sections.isEmpty

/-- Adds the report, if one is wanted, to what has been written. -/
def tellReport (elapsed : String) (o : RunOptions) (t : Tally) (out : Outcome) : Outcome :=
  if wantsReport o then
    match (Report.print elapsed o.sections t).printTo {} with
    | (.ok (), k) => { out with stderr := out.stderr ++ k.text }
    | (.error e, k) =>
      { out with code := 1, stderr := out.stderr ++ k.text ++ errorLine e.message }
  else
    out

/-- Adds the dump and the report to what has been written. -/
def tellMachine (elapsed : String) (o : RunOptions) (s : Settings) (b : Bench StreamConsole)
    (out : Outcome) : Outcome :=
  match (Dump.machine b.machine s.layout).printTo b.console.sink with
  | (.ok (), k) => tellReport elapsed o b.machine.tally { out with stdout := k.text }
  | (.error e, k) =>
    { code := 1, stdout := k.text, stderr := out.stderr ++ errorLine e.message }

/-- Tells what a run has come to. -/
def tellRun (elapsed : String) (w : Surroundings) (o : RunOptions) (s : Settings)
    (result : Except Failure Nat) (b : Bench StreamConsole) : Outcome :=
  let log := Log.render (Log.Filter.inForce w.logSetting s.tracing) b.log.toList
  match result with
  | .ok _ => tellMachine elapsed o s b { code := 0, stderr := log }
  | .error e =>
    let stderr := log ++ errorLine e.message
    if e.isMachineFault then
      tellMachine elapsed o s b { code := 1, stderr }
    else
      { code := 1, stdout := b.console.sink.text, stderr }

/-- Tells what listing a program has come to. -/
def tellList (w : Surroundings) (result : Except Failure (List Word)) (events : List Event) :
    Outcome :=
  let log := Log.render (Log.Filter.inForce w.logSetting false) events
  match result with
  | .ok words => { code := 0, stdout := Listing.render words, stderr := log }
  | .error e => { code := 1, stderr := log ++ errorLine e.message }

/-- The options of a request. -/
def Request.options : Request → RunOptions
  | .run o => o
  | _ => {}

/-- Tells what performing a request has come to, `elapsed` being the seconds that it took. -/
def tell (elapsed : String) (w : Surroundings) (r : Request) : Performance → Outcome
  | .refused reason => { code := 1, stderr := errorLine reason }
  | .shown text => { code := 0, stdout := text }
  | .read result events => tellList w result events
  | .ran s result b => tellRun elapsed w r.options s result b

/-- The outcome of arguments that ask for nothing. -/
def tellUsage (m : Manual) (e : UsageError) : Outcome :=
  { code := 2, stderr := m.complaint e }

end Command

end WordMachine
