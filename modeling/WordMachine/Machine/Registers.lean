import WordMachine.Instruction

/-!
# Registers

The one register a program computes with is the accumulator, a signed number of 32 bits, twice as
wide as a word of memory.  The others belong to the instruction cycle: the program counter points
to the next instruction, and the latch keeps the last one fetched, its operation and its operand
field apart.
-/

namespace WordMachine

/-- The registers of the machine. -/
structure Registers where
  /-- The accumulator. -/
  accumulator : Int32 := 0
  /-- The program counter. -/
  pc : WordIndex := 0
  /-- The instruction register: the last word fetched. -/
  ir : Word := 0
  /-- The operation of the last word fetched. -/
  opcode : Opcode := .endMark
  /-- The operand field of the last word fetched. -/
  operand : Word := 0
deriving DecidableEq, Repr

namespace Registers

/-- The registers when the machine is switched on: all zero. -/
def powerOn : Registers := {}

/-- Latches a fetched word. -/
def latch (r : Registers) (w : Word) : Registers :=
  { r with ir := w, opcode := w.opcode, operand := w.operandField }

end Registers

end WordMachine
