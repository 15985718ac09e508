import WordMachine.Failure
import WordMachine.Listing

/-!
# Log events

Loading and running a program leaves a trail of events.  Each event has a level, the part of the
simulator it comes from, a message and named values.  Whether an event is shown is no concern of
the machine: it emits them all, and a filter picks some.
-/

namespace WordMachine

/-- How important an event is, from the least important on. -/
inductive Level where
  | trace
  | debug
  | info
  | warn
  | error
deriving DecidableEq, Repr

namespace Level

/-- The position of a level in the order of importance. -/
def rank : Level → Nat
  | trace => 0
  | debug => 1
  | info => 2
  | warn => 3
  | error => 4

/-- The name of a level in a log line. -/
def name : Level → String
  | trace => "TRACE"
  | debug => "DEBUG"
  | info => "INFO"
  | warn => "WARN"
  | error => "ERROR"

end Level

/-- A value that an event carries. -/
inductive FieldValue where
  | number (n : Int)
  | text (s : String)
deriving DecidableEq, Repr

/-- A value as a log line shows it. -/
def FieldValue.render : FieldValue → String
  | number n => Numeral.signed n
  | text s => s

/-- What can happen. -/
inductive Event where
  /-- A program file was opened. -/
  | fileOpened (path : String)
  /-- The zero word that ends a program was read. -/
  | sentinelReached (words : Nat)
  /-- The input ended before a zero word. -/
  | inputEnded (words : Nat)
  /-- A program was stored in memory. -/
  | programLoaded (words : Nat)
  /-- An instruction is about to be executed. -/
  | executing (word : Word) (pc : WordIndex) (accumulator : Int32)
  /-- A run reached HALT. -/
  | halted (steps : Nat) (pc : WordIndex) (accumulator : Int32)
  /-- A run failed. -/
  | runAborted (cause : Failure) (pc : WordIndex)
deriving DecidableEq, Repr

namespace Event

/-- The level of an event. -/
def level : Event → Level
  | executing .. => .trace
  | programLoaded .. => .info
  | fileOpened .. | sentinelReached .. | inputEnded .. | halted .. | runAborted .. => .debug

/-- The part of the simulator from which an event comes. -/
def source : Event → String
  | fileOpened .. | sentinelReached .. | inputEnded .. => "vsm_core::sim::loader"
  | programLoaded .. | runAborted .. => "vsm_core::sim::simulator"
  | executing .. | halted .. => "vsm_core::core::cpu::execution"

/-- The message of an event. -/
def message : Event → String
  | fileOpened _ => "opened program file"
  | sentinelReached _ => "load sentinel reached"
  | inputEnded _ => "input exhausted during load"
  | programLoaded _ => "program loaded"
  | executing w _ _ => Numeral.hexCapital 4 w.toNat ++ "  " ++ w.disassembly
  | halted .. => "halted"
  | runAborted cause _ => "run aborted: " ++ cause.message

/-- The named values of an event, in the order in which they are shown. -/
def fields : Event → List (String × FieldValue)
  | fileOpened path => [("path", .text path)]
  | sentinelReached words | inputEnded words | programLoaded words => [("words", .number words)]
  | executing _ pc acc => [("pc", .number pc), ("acc", .number acc.toInt)]
  | halted steps pc acc =>
    [("steps", .number steps), ("pc", .number pc), ("acc", .number acc.toInt)]
  | runAborted _ pc => [("pc", .number pc)]

/-- Whether an event carries a value under a name; its message is one. -/
def carries (e : Event) (name : String) : Bool :=
  name = "message" || e.fields.any (·.1 = name)

/-- The log line of an event: the level, set flush right in five columns, the source, the message
and the named values. -/
def line (e : Event) : String :=
  "".pushn ' ' (5 - e.level.name.length) ++ e.level.name ++ " " ++ e.source ++ ": " ++ e.message ++
    String.join (e.fields.map fun f => " " ++ f.1 ++ "=" ++ f.2.render) ++ "\n"

end Event

end WordMachine
