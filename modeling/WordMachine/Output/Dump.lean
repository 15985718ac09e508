import WordMachine.Machine.Basic
import WordMachine.Host.Sink
import WordMachine.Text.Tokens

/-!
# Dumps

A dump shows the registers and the two segments of a layout.  A segment is printed in rows of ten
words under a header; a row starts with the index of its first word and shows the low byte of each
word.  Labels of the code segment have at least four digits, those of the data segment are plain.

Whether a segment lies in memory is found out only when its rows are due: the dump of a machine
whose memory is too small ends with the header of the first segment that does not fit.
-/

namespace WordMachine

namespace Dump

open Printer Numeral

/-! ### Registers -/

/-- The accumulator in two's complement of 32 bits. -/
def accumulatorBits (value : Int32) : Nat :=
  value.toUInt32.toNat

/-- Prints the registers in hexadecimal. -/
def registers (r : Registers) : Printer Unit := do
  putLine "REGISTERS:"
  putLine ("accumulator\t\t0x" ++ hexCapital 4 (accumulatorBits r.accumulator))
  putLine ("instructionCounter\t0x" ++ hexCapital 4 r.pc)
  putLine ("instructionRegister\t0x" ++ hexCapital 4 r.ir.toNat)
  putLine ("opCode\t\t\t0x" ++ hexCapital 4 r.opcode.code)
  putLine ("operand\t\t\t0x" ++ hexCapital 4 r.operand.toNat)

/-! ### Segments -/

/-- The header of the columns of a segment. -/
def columnHeader : String :=
  " 0 1 2 3 4 5 6 7 8 9"

/-- The label of a row of the code segment. -/
def codeLabel (index : WordIndex) : String :=
  decimalPadded 4 index

/-- The label of a row of the data segment. -/
def dataLabel (index : WordIndex) : String :=
  decimal index

/-- A word as a dump shows it: its low byte and a space. -/
def cell (w : Word) : String :=
  hexCapital 2 (w.toNat % 0x100) ++ " "

/-- A row of words. -/
def row (label : String) (words : List Word) : String :=
  label ++ " " ++ String.join (words.map cell)

/-- The rows of words that stand from `index` on. -/
def rowsFrom (label : WordIndex → String) (index : WordIndex) : List (List Word) → List String
  | [] => []
  | words :: rest => row (label index) words :: rowsFrom label (index + wordsPerRow) rest

/-- Prints a segment of memory. -/
def segment (m : Memory) (s : Segment) (label : WordIndex → String) : Printer Unit := do
  putLine columnHeader
  let words ← demand (m.segment s.start s.length)
  putLines (rowsFrom label s.start (pieces wordsPerRow words))

/-! ### Machines -/

/-- Prints a machine and flushes the sink. -/
def machine (m : Machine) (l : Layout) : Printer Unit := do
  registers m.registers
  putLine ""
  putLine "CODE:"
  segment m.memory l.code codeLabel
  putLine "..."
  putLine "DATA:"
  segment m.memory l.data dataLabel
  flush

/-- The dump of a machine as a text. -/
def render (m : Machine) (l : Layout) : Except Failure String :=
  match (machine m l).printTo {} with
  | (.ok (), k) => .ok k.text
  | (.error e, _) => .error e

end Dump

end WordMachine
