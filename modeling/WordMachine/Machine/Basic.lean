import WordMachine.Machine.Memory
import WordMachine.Machine.Registers
import WordMachine.Machine.Tally
import WordMachine.Host.Console
import WordMachine.Settings.Basic

/-!
# The machine and its instructions

A machine is its registers and its memory, together with a tally, a switch for tracing and a flag
that HALT sets.  Executing an instruction is all or nothing: it yields the next machine, or a
failure and no machine at all, so that a failed instruction leaves the machine as it was.
-/

namespace WordMachine

/-- The state of a machine. -/
structure Machine where
  registers : Registers
  memory : Memory
  tally : Tally := {}
  /-- Whether every executed instruction is logged. -/
  tracing : Bool := false
  /-- Whether HALT has been executed. -/
  halted : Bool := false
deriving DecidableEq, Repr

/-- What an instruction leaves to do. -/
inductive Status where
  /-- The next instruction can be fetched. -/
  | running
  /-- The machine has halted. -/
  | halted
deriving DecidableEq, Repr

namespace Machine

/-- A machine that has just been switched on. -/
def powerOn (s : Settings) : Machine where
  registers := .powerOn
  memory := .blank s.layout.capacity
  tracing := s.tracing

/-- Puts the machine back into its first state.  The size of memory and the tracing switch stay. -/
def reset (m : Machine) : Machine where
  registers := .powerOn
  memory := m.memory.clear
  tracing := m.tracing

/-! ### Registers -/

/-- The accumulator. -/
def accumulator (m : Machine) : Int32 :=
  m.registers.accumulator

/-- The program counter. -/
def pc (m : Machine) : WordIndex :=
  m.registers.pc

/-- The machine with another accumulator. -/
def setAccumulator (m : Machine) (value : Int32) : Machine :=
  { m with registers := { m.registers with accumulator := value } }

/-- The machine with another program counter. -/
def setPc (m : Machine) (index : WordIndex) : Machine :=
  { m with registers := { m.registers with pc := index } }

/-- The machine that goes on with the next word. -/
def advancePc (m : Machine) : Machine :=
  m.setPc m.pc.next

/-- The machine that has fetched a word: the word is latched and counted. -/
def fetch (m : Machine) (w : Word) : Machine :=
  { m with registers := m.registers.latch w, tally := m.tally.record w.opcode }

/-! ### Operands -/

/-- A word as a number of the width of the accumulator. -/
def extend (w : Word) : Int32 :=
  Int32.ofNat w.toNat

/-- The low half of an accumulator as a word. -/
def truncate (value : Int32) : Word :=
  value.toUInt32.toUInt16

/-- The value of an operand. -/
def value (m : Machine) : Operand → Except Failure Int32
  | .literal w => .ok (extend w)
  | .cell index => (m.memory.read index).map extend

/-- The value of a divisor, which must not be zero. -/
def divisor (m : Machine) (o : Operand) : Except Failure Int32 :=
  match m.value o with
  | .error e => .error e
  | .ok v => if v = 0 then .error (.divisionByZero m.pc) else .ok v

/-! ### Effects of instructions -/

/-- Computes a new accumulator from the old one and a value, and goes on. -/
def compute (m : Machine) (v : Except Failure Int32) (f : Int32 → Int32 → Int32) :
    Except Failure Machine :=
  v.map fun x => (m.setAccumulator (f m.accumulator x)).advancePc

/-- Stores a word and goes on. -/
def storeWord (m : Machine) (index : WordIndex) (w : Word) : Except Failure Machine :=
  (m.memory.write index w).map fun memory => { m with memory }.advancePc

/-- Jumps if `taken`, else goes on, and counts the outcome. -/
def jump (m : Machine) (taken : Bool) (target : WordIndex) : Machine :=
  let m := { m with tally := m.tally.recordJump taken }
  if taken then m.setPc target else m.advancePc

/-- The word that READ stores for a token: an operand field, never an operation. -/
def inputWord (token : String) : Word :=
  (Word.ofToken token).operandField

/-- Executes READ. -/
def executeRead {κ : Type} [Console κ] (m : Machine) (k : κ) (index : WordIndex) :
    Except Failure Machine × κ :=
  match Console.readToken k with
  | (.error e, k) => (.error e, k)
  | (.ok none, k) => (.error (.inputExhausted m.pc), k)
  | (.ok (some token), k) => (m.storeWord index (inputWord token), k)

/-- Executes WRITE. -/
def executeWrite {κ : Type} [Console κ] (m : Machine) (k : κ) (index : WordIndex) :
    Except Failure Machine × κ :=
  match m.memory.read index with
  | .error e => (.error e, k)
  | .ok w =>
    match Console.writeValue k w with
    | (.error e, k) => (.error e, k)
    | (.ok (), k) => (.ok m.advancePc, k)

/-- Executes an instruction.  Arithmetic wraps around at the width of the accumulator, and division
rounds toward zero. -/
def execute {κ : Type} [Console κ] (m : Machine) (k : κ) :
    Instruction → Except Failure Machine × κ
  | .endMark | .nop => (.ok m.advancePc, k)
  | .load o => (m.compute (m.value o) fun _ x => x, k)
  | .store index => (m.storeWord index (truncate m.accumulator), k)
  | .read index => m.executeRead k index
  | .write index => m.executeWrite k index
  | .add o => (m.compute (m.value o) (· + ·), k)
  | .sub o => (m.compute (m.value o) (· - ·), k)
  | .mul o => (m.compute (m.value o) (· * ·), k)
  | .div o => (m.compute (m.divisor o) (· / ·), k)
  | .mod o => (m.compute (m.divisor o) (· % ·), k)
  | .neg => (.ok (m.setAccumulator (-m.accumulator)).advancePc, k)
  | .jmp target => (.ok (m.jump true target), k)
  | .jneg target => (.ok (m.jump (m.accumulator < 0) target), k)
  | .jzero target => (.ok (m.jump (m.accumulator = 0) target), k)
  | .halt => (.ok { m with halted := true }, k)

/-- What an instruction leaves to do when it succeeds. -/
def statusAfter : Instruction → Status
  | .halt => .halted
  | _ => .running

end Machine

end WordMachine
