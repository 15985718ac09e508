import WordMachine.Failure

/-!
# Sinks

A sink keeps the text that is written to it.  It may have room for a limited number of characters
only: a write that needs more keeps the part that fits and fails.  All text that the machine writes
is ASCII, so characters and bytes are the same.

Output that consists of many writes is a `Printer`: it stops at the first write that fails, and the
sink keeps what was written before.
-/

namespace WordMachine

/-- A place for output. -/
structure Sink where
  /-- What has been kept so far. -/
  text : String := ""
  /-- How many more characters there is room for; any number, if not given. -/
  room : Option Nat := none
  /-- Whether flushing fails. -/
  refusesFlush : Bool := false
  /-- How often the sink has been flushed. -/
  flushes : Nat := 0
deriving DecidableEq, Repr

namespace Sink

/-- Writes text, or as much of it as there is room for. -/
def write (k : Sink) (s : String) : Except Failure Unit × Sink :=
  match k.room with
  | none => (.ok (), { k with text := k.text ++ s })
  | some n =>
    if s.length ≤ n then
      (.ok (), { k with text := k.text ++ s, room := some (n - s.length) })
    else
      (.error (.io "sink full"),
        { k with text := k.text ++ String.ofList (s.toList.take n), room := some 0 })

/-- Flushes the sink. -/
def flush (k : Sink) : Except Failure Unit × Sink :=
  (if k.refusesFlush then .error (.io "flush failed") else .ok (),
    { k with flushes := k.flushes + 1 })

end Sink

/-! ### Printers -/

/-- Output that is written piece by piece and may fail on the way. -/
abbrev Printer := ExceptT Failure (StateM Sink)

namespace Printer

/-- Writes text. -/
def put (s : String) : Printer Unit :=
  ExceptT.mk fun k => k.write s

/-- Writes text and ends the line. -/
def putLine (s : String) : Printer Unit :=
  put (s ++ "\n")

/-- Flushes the sink. -/
def flush : Printer Unit :=
  ExceptT.mk fun k => k.flush

/-- Writes texts as lines. -/
def putLines : List String → Printer Unit
  | [] => pure ()
  | s :: rest => do
    putLine s
    putLines rest

/-- Goes on with the value of a computation, or fails as it did. -/
def demand {α : Type} (r : Except Failure α) : Printer α :=
  ExceptT.mk (pure r)

/-- Prints to a sink. -/
def printTo {α : Type} (p : Printer α) (k : Sink) : Except Failure α × Sink :=
  p.run k

end Printer

end WordMachine
