import WordMachine.Machine.Basic
import WordMachine.Log.Event

/-!
# Machines at work

A bench is a machine attached to a console, with a log of what has happened.  Everything that is
done at a bench leaves a bench behind, also when it fails: the state at a failure is what a dump
then shows.

A *run* is a sequence of steps that ends with HALT or with a failure.  With a limit of `n` it may
take `n` steps and is given up if it has not ended by then; so the smallest limit under which a
program halts is the number of its instructions, HALT included.  A run without a limit may go on
forever.  It is observed for a number of steps that the observer chooses, and what it comes to, if
anything, does not depend on that choice.
-/

namespace WordMachine

/-- A machine attached to a console. -/
structure Bench (κ : Type) where
  machine : Machine
  console : κ
  /-- The events so far, in order. -/
  log : Array Event := #[]
deriving DecidableEq, Repr

namespace Bench

variable {κ : Type} [Console κ]

/-- A machine that has just been switched on, attached to a console. -/
def powerOn (s : Settings) (k : κ) : Bench κ where
  machine := .powerOn s
  console := k

/-- Adds an event to the log. -/
def note (b : Bench κ) (e : Event) : Bench κ :=
  { b with log := b.log.push e }

/-! ### Steps -/

/-- What the log gets to know of an instruction that has been fetched. -/
def noteFetch (log : Array Event) (m : Machine) (w : Word) : Array Event :=
  if m.tracing then log.push (.executing w m.pc m.accumulator) else log

/-- Fetches the next instruction and executes it. -/
def step (b : Bench κ) : Except Failure Status × Bench κ :=
  match b.machine.memory.read b.machine.pc with
  | .error e => (.error e, b)
  | .ok w =>
    let fetched := b.machine.fetch w
    let log := noteFetch b.log fetched w
    match fetched.execute b.console w.decode with
    | (.error e, console) => (.error e, { machine := fetched, console, log })
    | (.ok machine, console) => (.ok (Machine.statusAfter w.decode), { machine, console, log })

/-! ### Runs -/

/-- How far a sequence of steps has come. -/
inductive Progress where
  /-- All steps were taken and the machine is still running. -/
  | running
  /-- The machine halted in the step of this number. -/
  | halted (steps : Nat)
  /-- A step failed. -/
  | failed (cause : Failure)
deriving DecidableEq, Repr

/-- Takes at most `n` steps after the first `taken`, and stops at HALT and at a failure. -/
def advance (taken : Nat) : Nat → Bench κ → Progress × Bench κ
  | 0, b => (.running, b)
  | n + 1, b =>
    match b.step with
    | (.error e, b) => (.failed e, b)
    | (.ok .halted, b) => (.halted (taken + 1), b)
    | (.ok .running, b) => advance (taken + 1) n b

/-- Ends a run that halted after a number of steps: the console is flushed, and the log notes where
the machine halted. -/
def finish (b : Bench κ) (steps : Nat) : Except Failure Nat × Bench κ :=
  match Console.flush b.console with
  | (.error e, console) => (.error e, { b with console })
  | (.ok (), console) =>
    (.ok steps, { b with console }.note (.halted steps b.machine.pc b.machine.accumulator))

/-- Runs the machine for at most `limit` steps and returns their number. -/
def runWithin (limit : Nat) (b : Bench κ) : Except Failure Nat × Bench κ :=
  match b.advance 0 limit with
  | (.running, b) => (.error (.stepLimitExceeded limit), b)
  | (.halted steps, b) => b.finish steps
  | (.failed e, b) => (.error e, b)

/-- What a run without a limit comes to, if it ends within `patience` steps. -/
def runObserved (patience : Nat) (b : Bench κ) : Option (Except Failure Nat × Bench κ) :=
  match b.advance 0 patience with
  | (.running, _) => none
  | (.halted steps, b) => some (b.finish steps)
  | (.failed e, b) => some (.error e, b)

/-- What a run with a limit, if one is given, comes to.  Only without one does it depend on the
`patience` of the observer whether there is an answer. -/
def run (patience : Nat) (limit : Option Nat) (b : Bench κ) :
    Option (Except Failure Nat × Bench κ) :=
  match limit with
  | some limit => some (b.runWithin limit)
  | none => b.runObserved patience

/-- Notes in the log that a run failed, if it did. -/
def noteAbort : Except Failure Nat × Bench κ → Except Failure Nat × Bench κ
  | (.error e, b) => (.error e, b.note (.runAborted e b.machine.pc))
  | (.ok steps, b) => (.ok steps, b)

end Bench

end WordMachine
