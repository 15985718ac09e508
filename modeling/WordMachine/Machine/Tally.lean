import WordMachine.Instruction

/-!
# The tally of a run

A tally counts the instructions of a run by category, the jumps by outcome, and the words that were
loaded.  An instruction counts once its word has been fetched, whether it then succeeds or not.

The counters are natural numbers and never overflow.  Counters of sixty-four bits show the same until
`2 ^ 64` instructions have been executed or a program of `2 ^ 64` words has been loaded, for no other
counter runs ahead of the number of instructions (`Reached.fits`).
-/

namespace WordMachine

/-- The categories of operations. -/
inductive Category where
  /-- LOAD and STORE. -/
  | data
  /-- READ and WRITE. -/
  | io
  /-- The arithmetic operations. -/
  | arithmetic
  /-- The jumps. -/
  | jump
  /-- END, NOP and HALT. -/
  | other
deriving DecidableEq, Repr

/-- The category of an operation. -/
def Opcode.category : Opcode → Category
  | load | store => .data
  | read | write => .io
  | add | sub | mul | div | mod | neg => .arithmetic
  | jmp | jneg | jzero => .jump
  | endMark | nop | halt => .other

/-- The counters of a run. -/
structure Tally where
  /-- Words stored by the last load. -/
  wordsLoaded : Nat := 0
  /-- Instructions executed. -/
  instructions : Nat := 0
  /-- Of these, the ones of category `data`. -/
  data : Nat := 0
  /-- Of these, the ones of category `io`. -/
  io : Nat := 0
  /-- Of these, the ones of category `arithmetic`. -/
  arithmetic : Nat := 0
  /-- Of these, the ones of category `jump`. -/
  jump : Nat := 0
  /-- Of these, the ones of category `other`. -/
  other : Nat := 0
  /-- Jumps that went to their target. -/
  jumpsTaken : Nat := 0
  /-- Conditional jumps that went on with the next word. -/
  jumpsNotTaken : Nat := 0
deriving DecidableEq, Repr

namespace Tally

/-- The counter of a category. -/
def count (t : Tally) : Category → Nat
  | .data => t.data
  | .io => t.io
  | .arithmetic => t.arithmetic
  | .jump => t.jump
  | .other => t.other

/-- Counts one instruction. -/
def record (t : Tally) (o : Opcode) : Tally :=
  let t := { t with instructions := t.instructions + 1 }
  match o.category with
  | .data => { t with data := t.data + 1 }
  | .io => { t with io := t.io + 1 }
  | .arithmetic => { t with arithmetic := t.arithmetic + 1 }
  | .jump => { t with jump := t.jump + 1 }
  | .other => { t with other := t.other + 1 }

/-- Counts the outcome of one jump. -/
def recordJump (t : Tally) (taken : Bool) : Tally :=
  if taken then
    { t with jumpsTaken := t.jumpsTaken + 1 }
  else
    { t with jumpsNotTaken := t.jumpsNotTaken + 1 }

/-- Recording an operation adds one to the counter of its category and to no other. -/
theorem count_record (t : Tally) (o : Opcode) (c : Category) :
    (t.record o).count c = t.count c + if o.category = c then 1 else 0 := by
  unfold record
  cases o.category <;> cases c <;> simp [count]

@[simp] theorem wordsLoaded_record (t : Tally) (o : Opcode) :
    (t.record o).wordsLoaded = t.wordsLoaded := by
  unfold record
  cases o.category <;> rfl

@[simp] theorem jumpsTaken_record (t : Tally) (o : Opcode) :
    (t.record o).jumpsTaken = t.jumpsTaken := by
  unfold record
  cases o.category <;> rfl

@[simp] theorem jumpsNotTaken_record (t : Tally) (o : Opcode) :
    (t.record o).jumpsNotTaken = t.jumpsNotTaken := by
  unfold record
  cases o.category <;> rfl

/-- A tally is known from its totals and the counters of the categories. -/
theorem ext_count {t u : Tally} (hwords : t.wordsLoaded = u.wordsLoaded)
    (hinstructions : t.instructions = u.instructions) (hcount : ∀ c, t.count c = u.count c)
    (htaken : t.jumpsTaken = u.jumpsTaken) (hnotTaken : t.jumpsNotTaken = u.jumpsNotTaken) :
    t = u := by
  obtain ⟨tw, ti, td, tio, ta, tj, tot, tjt, tjn⟩ := t
  obtain ⟨uw, ui, ud, uio, ua, uj, uot, ujt, ujn⟩ := u
  have hdata := hcount .data
  have hio := hcount .io
  have harithmetic := hcount .arithmetic
  have hjump := hcount .jump
  have hother := hcount .other
  simp only [count] at *
  subst_vars
  rfl

@[simp] theorem instructions_record (t : Tally) (o : Opcode) :
    (t.record o).instructions = t.instructions + 1 := by
  unfold record
  cases o.category <;> rfl

end Tally

end WordMachine
