import WordMachine.Proofs.Step

/-!
# What a failing step leaves behind

A step can fail before its fetch, when the program counter points outside memory; then nothing at
all has happened.  Or it fails after the fetch, by one of the rules of `Machine.Faults`.  By then
the word fetched is in the latch and has been counted, and nothing else of the machine has changed:
this is what `Machine.Latched` says, one field of the machine after the other.  In particular the
program counter still points at the instruction that failed, so that a dump shows it.

The main statement is `Bench.step_eq_error_iff_faults`.
-/

namespace WordMachine

/-- A divisor is the operand of its instruction. -/
theorem Instruction.operand?_of_divisor {i : Instruction} {o : Operand}
    (h : i.divisor? = some o) : i.operand? = some o := by
  unfold Instruction.divisor? at h
  split at h <;> cases h <;> rfl

namespace Machine

/-- `m.Latched w m'`: the machine `m'` differs from `m` in that the word `w` has been latched and
counted, and in nothing else. -/
structure Latched (m : Machine) (w : Word) (m' : Machine) : Prop where
  accumulator : m'.accumulator = m.accumulator
  pc : m'.pc = m.pc
  memory : m'.memory = m.memory
  halted : m'.halted = m.halted
  tracing : m'.tracing = m.tracing
  wordsLoaded : m'.tally.wordsLoaded = m.tally.wordsLoaded
  jumpsTaken : m'.tally.jumpsTaken = m.tally.jumpsTaken
  jumpsNotTaken : m'.tally.jumpsNotTaken = m.tally.jumpsNotTaken
  ir : m'.registers.ir = w
  opcode : m'.registers.opcode = w.opcode
  operand : m'.registers.operand = w.operandField
  instructions : m'.tally.instructions = m.tally.instructions + 1
  count : ∀ c, m'.tally.count c = m.tally.count c + if w.opcode.category = c then 1 else 0

/-- A fetch latches and counts a word. -/
theorem latched_fetch (m : Machine) (w : Word) : m.Latched w (m.fetch w) where
  accumulator := rfl
  pc := rfl
  memory := rfl
  halted := rfl
  tracing := rfl
  wordsLoaded := Tally.wordsLoaded_record m.tally w.opcode
  jumpsTaken := Tally.jumpsTaken_record m.tally w.opcode
  jumpsNotTaken := Tally.jumpsNotTaken_record m.tally w.opcode
  ir := rfl
  opcode := rfl
  operand := rfl
  instructions := Tally.instructions_record m.tally w.opcode
  count := Tally.count_record m.tally w.opcode

/-- Two machines in which the same word has been latched and counted are the same. -/
theorem Latched.eq {m m₁ m₂ : Machine} {w : Word} (h₁ : m.Latched w m₁) (h₂ : m.Latched w m₂) :
    m₁ = m₂ := by
  have hregisters : m₁.registers = m₂.registers := by
    rw [Registers.mk.injEq]
    exact ⟨h₁.accumulator.trans h₂.accumulator.symm, h₁.pc.trans h₂.pc.symm,
      h₁.ir.trans h₂.ir.symm, h₁.opcode.trans h₂.opcode.symm, h₁.operand.trans h₂.operand.symm⟩
  have htally : m₁.tally = m₂.tally := by
    apply Tally.ext_count
    · exact h₁.wordsLoaded.trans h₂.wordsLoaded.symm
    · exact h₁.instructions.trans h₂.instructions.symm
    · intro c
      rw [h₁.count, h₂.count]
    · exact h₁.jumpsTaken.trans h₂.jumpsTaken.symm
    · exact h₁.jumpsNotTaken.trans h₂.jumpsNotTaken.symm
  rw [Machine.mk.injEq]
  exact ⟨hregisters, h₁.memory.trans h₂.memory.symm, htally, h₁.tracing.trans h₂.tracing.symm,
    h₁.halted.trans h₂.halted.symm⟩

/-- A machine in which a word has been latched and counted has fetched it. -/
theorem latched_iff {m m' : Machine} {w : Word} : m.Latched w m' ↔ m' = m.fetch w := by
  constructor
  · intro h
    exact h.eq (latched_fetch m w)
  · rintro rfl
    exact latched_fetch m w

/-- What the instruction reads as data is the same in both machines. -/
def ReadsAlike (i : Instruction) (m₁ m₂ : Machine) : Prop :=
  ∀ a, i.datum? = some a → m₁.memory.words[a]? = m₂.memory.words[a]?

/-- An operand stands for the same word then. -/
theorem ReadsAlike.operandWord {m₁ m₂ : Machine} {i : Instruction} (h : ReadsAlike i m₁ m₂)
    {o : Operand} (ho : i.operand? = some o) : m₁.operandWord o = m₂.operandWord o := by
  cases o with
  | literal w => rfl
  | cell a =>
    have hdatum : i.datum? = some a := by
      unfold Instruction.operand? at ho
      split at ho <;> cases ho <;> rfl
    exact h a hdatum

/-- How an instruction fails depends on the program counter, the size of memory and what it reads as
data. -/
theorem Faults.congr {κ : Type} [Console κ] {m₁ m₂ : Machine} {k k' : κ} {i : Instruction}
    {e : Failure} (hpc : m₁.pc = m₂.pc) (hcapacity : m₁.memory.capacity = m₂.memory.capacity)
    (hreads : ReadsAlike i m₁ m₂) (h : m₁.Faults k i e k') : m₂.Faults k i e k' := by
  have houtside (a : WordIndex) : m₁.memory.outOfBounds a = m₂.memory.outOfBounds a :=
    congrArg (Failure.memoryOutOfBounds a) hcapacity
  cases h with
  | request hr => exact .request hr
  | exhausted hr =>
    rw [hpc]
    exact .exhausted hr
  | target hr hge =>
    rw [houtside]
    exact .target hr (hcapacity ▸ hge)
  | cell huses hge =>
    rw [houtside]
    exact .cell huses (hcapacity ▸ hge)
  | zero hdivides hz =>
    rw [hpc]
    exact .zero hdivides ((hreads.operandWord (Instruction.operand?_of_divisor hdivides)).symm.trans hz)
  | emission hw hwr => exact .emission ((hreads _ rfl).symm.trans hw) hwr

/-- The fetch that comes before an instruction does not change how it fails. -/
theorem faults_fetch_iff {κ : Type} [Console κ] {m : Machine} {k k' : κ} {i : Instruction}
    {w : Word} {e : Failure} : (m.fetch w).Faults k i e k' ↔ m.Faults k i e k' :=
  ⟨Faults.congr rfl rfl fun _ _ => rfl, Faults.congr rfl rfl fun _ _ => rfl⟩

end Machine

/-- A step fails exactly in two cases.  Either the program counter points outside memory, and then
nothing has changed.  Or there is a word to fetch and its instruction fails by one of the rules, and
then the word has been latched and counted, the console is the one of the rule, and the rest of the
machine is as before. -/
theorem Bench.step_eq_error_iff_faults {κ : Type} [Console κ] (b b' : Bench κ) (e : Failure) :
    b.step = (.error e, b') ↔
      (b.machine.memory.capacity ≤ b.machine.pc ∧
        e = .memoryOutOfBounds b.machine.pc b.machine.memory.capacity ∧ b' = b) ∨
      ∃ w, b.machine.memory.words[b.machine.pc]? = some w ∧
        b.machine.Faults b.console w.decode e b'.console ∧
        b.machine.Latched w b'.machine ∧
        b'.log = if b.machine.tracing then
            b.log.push (.executing w b.machine.pc b.machine.accumulator)
          else b.log := by
  rw [step_eq_error_iff]
  simp only [Machine.faults_fetch_iff, Machine.latched_iff]
  exact Iff.rfl

end WordMachine
