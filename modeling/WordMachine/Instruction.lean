import WordMachine.Word

/-!
# The instruction set

There are sixteen operations, one for each code.  They differ in how they take the operand field:

* LOAD and the five binary arithmetic operations take an `Operand`, a literal or a word of memory
  as the mode bit says;
* STORE, READ and WRITE take a word of memory, the jumps a word to go on with; for them the mode
  bit is the highest bit of the address;
* END, NEG, NOP and HALT ignore the field.

An `Instruction` carries just what its operation uses, so two words that decode to the same
instruction do the same.
-/

namespace WordMachine

/-! ### Operations -/

/-- The operations of the machine, in the order of their codes. -/
inductive Opcode where
  /-- Marks the end of a program; does nothing when executed. -/
  | endMark
  /-- Sets the accumulator. -/
  | load
  /-- Stores the accumulator. -/
  | store
  /-- Reads a token into memory. -/
  | read
  /-- Writes a word of memory out. -/
  | write
  /-- Adds to the accumulator. -/
  | add
  /-- Subtracts from the accumulator. -/
  | sub
  /-- Multiplies the accumulator. -/
  | mul
  /-- Divides the accumulator. -/
  | div
  /-- Leaves the remainder of a division in the accumulator. -/
  | mod
  /-- Changes the sign of the accumulator. -/
  | neg
  /-- Does nothing. -/
  | nop
  /-- Jumps. -/
  | jmp
  /-- Jumps when the accumulator is negative. -/
  | jneg
  /-- Jumps when the accumulator is zero. -/
  | jzero
  /-- Stops the machine. -/
  | halt
deriving DecidableEq, Repr

namespace Opcode

/-- The operation of a code; only the four low bits of the code count. -/
def ofCode (code : Nat) : Opcode :=
  match code % 16 with
  | 0 => endMark
  | 1 => load
  | 2 => store
  | 3 => read
  | 4 => write
  | 5 => add
  | 6 => sub
  | 7 => mul
  | 8 => div
  | 9 => mod
  | 10 => neg
  | 11 => nop
  | 12 => jmp
  | 13 => jneg
  | 14 => jzero
  | _ => halt

/-- The code of an operation. -/
def code : Opcode → Nat
  | endMark => 0
  | load => 1
  | store => 2
  | read => 3
  | write => 4
  | add => 5
  | sub => 6
  | mul => 7
  | div => 8
  | mod => 9
  | neg => 10
  | nop => 11
  | jmp => 12
  | jneg => 13
  | jzero => 14
  | halt => 15

@[simp] theorem ofCode_code (o : Opcode) : ofCode o.code = o := by
  cases o <;> rfl

/-- The name of an operation in listings and logs. -/
def mnemonic : Opcode → String
  | endMark => "END"
  | load => "LOAD"
  | store => "STORE"
  | read => "READ"
  | write => "WRITE"
  | add => "ADD"
  | sub => "SUB"
  | mul => "MUL"
  | div => "DIV"
  | mod => "MOD"
  | neg => "NEG"
  | nop => "NOP"
  | jmp => "JMP"
  | jneg => "JNEG"
  | jzero => "JZERO"
  | halt => "HALT"

/-- The operations for which the mode bit chooses between a literal and a word of memory. -/
def hasMode : Opcode → Bool
  | load | add | sub | mul | div | mod => true
  | _ => false

end Opcode

/-- The operation of an instruction word. -/
def Word.opcode (w : Word) : Opcode :=
  Opcode.ofCode w.operationCode

/-! ### Instructions -/

/-- What LOAD and the binary arithmetic operations work with. -/
inductive Operand where
  /-- The value itself. -/
  | literal (value : Word)
  /-- The word of memory at an index. -/
  | cell (index : WordIndex)
deriving DecidableEq, Repr

/-- An operation together with the operand it uses. -/
inductive Instruction where
  | endMark
  | load (operand : Operand)
  | store (index : WordIndex)
  | read (index : WordIndex)
  | write (index : WordIndex)
  | add (operand : Operand)
  | sub (operand : Operand)
  | mul (operand : Operand)
  | div (operand : Operand)
  | mod (operand : Operand)
  | neg
  | nop
  | jmp (target : WordIndex)
  | jneg (target : WordIndex)
  | jzero (target : WordIndex)
  | halt
deriving DecidableEq, Repr

namespace Instruction

/-- The operation of an instruction. -/
def opcode : Instruction → Opcode
  | endMark => .endMark
  | load _ => .load
  | store _ => .store
  | read _ => .read
  | write _ => .write
  | add _ => .add
  | sub _ => .sub
  | mul _ => .mul
  | div _ => .div
  | mod _ => .mod
  | neg => .neg
  | nop => .nop
  | jmp _ => .jmp
  | jneg _ => .jneg
  | jzero _ => .jzero
  | halt => .halt

end Instruction

/-! ### Decoding -/

namespace Word

/-- The operand of a word.  The mode bit counts only if the operation has a mode; for all others it
belongs to the address. -/
def operand (w : Word) : Operand :=
  if w.opcode.hasMode && w.isLiteral then .literal w.literal else .cell w.target

theorem operand_of_isLiteral {w : Word} (hmode : w.opcode.hasMode = true)
    (h : w.isLiteral = true) : w.operand = .literal w.literal := by
  rw [operand, hmode, h]
  rfl

theorem operand_of_not_isLiteral {w : Word} (h : w.isLiteral = false) :
    w.operand = .cell w.target := by
  rw [operand, h, Bool.and_false]
  rfl

/-- The instruction that a word encodes.  Every word encodes one. -/
def decode (w : Word) : Instruction :=
  match w.opcode with
  | .endMark => .endMark
  | .load => .load w.operand
  | .store => .store w.target
  | .read => .read w.target
  | .write => .write w.target
  | .add => .add w.operand
  | .sub => .sub w.operand
  | .mul => .mul w.operand
  | .div => .div w.operand
  | .mod => .mod w.operand
  | .neg => .neg
  | .nop => .nop
  | .jmp => .jmp w.target
  | .jneg => .jneg w.target
  | .jzero => .jzero w.target
  | .halt => .halt

@[simp] theorem opcode_decode (w : Word) : w.decode.opcode = w.opcode := by
  unfold decode
  cases h : w.opcode <;> rfl

end Word

end WordMachine
