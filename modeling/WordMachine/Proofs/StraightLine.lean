import WordMachine.Host.TokenQueue
import WordMachine.Proofs.Reference
import WordMachine.Proofs.Run

/-!
# Straight-line arithmetic

LOAD, ADD, SUB, MUL and NEG change nothing but the accumulator, and NOP and END not even that.  A
`Calculation` is one of them, and a list of calculations has a meaning without any machine: what it
makes of an integer, `Calculation.evaluate`, the operands taken from a memory and nothing ever cut off.

The accumulator has thirty-two bits, so it wraps around at every instruction, perhaps many times over.
This does not show in the end.  Taking an integer into the accumulator, `Int32.ofInt`, respects sums,
differences, products and signs, so an accumulator that represents the exact value before an instruction
represents the exact value after it (`Calculation.executes`), and by induction after any number of them
(`Bench.calculated_of_holdsAt`).  STORE then keeps the remainder by `2 ^ 16`, which divides `2 ^ 32`; so
the word that it writes is the remainder of the exact value (`Machine.toNat_truncate_ofInt`).
-/

namespace WordMachine

/-! ### Calculations -/

/-- The number that an operand stands for.  An operand outside memory counts as zero. -/
def Memory.number (m : Memory) : Operand → Int
  | .literal w => w.toNat
  | .cell a => (m.words[a]?.getD 0).toNat

/-- An instruction of straight-line arithmetic. -/
inductive Calculation where
  | load (operand : Operand)
  | add (operand : Operand)
  | sub (operand : Operand)
  | mul (operand : Operand)
  | neg
  | nop
  | endMark
deriving DecidableEq, Repr

namespace Calculation

/-- The instruction of a calculation. -/
def instruction : Calculation → Instruction
  | load o => .load o
  | add o => .add o
  | sub o => .sub o
  | mul o => .mul o
  | neg => .neg
  | nop => .nop
  | endMark => .endMark

/-- What a calculation makes of an integer. -/
def apply (m : Memory) (x : Int) : Calculation → Int
  | load o => m.number o
  | add o => x + m.number o
  | sub o => x - m.number o
  | mul o => x * m.number o
  | neg => -x
  | nop | endMark => x

/-- What calculations make of an integer, one after another. -/
def evaluate (m : Memory) (cs : List Calculation) (x : Int) : Int :=
  cs.foldl (apply m) x

/-- The operand of a calculation is a literal or lies inside memory. -/
def Inside (m : Memory) (c : Calculation) : Prop :=
  ∀ a, c.instruction.cell? = some a → a < m.capacity

/-- No calculation halts. -/
theorem statusAfter_instruction (c : Calculation) :
    Machine.statusAfter c.instruction = .running := by
  cases c <;> rfl

end Calculation

/-- `m.HoldsAt s cs`: the calculations stand at consecutive words from `s` on, with their operands inside
memory. -/
structure Memory.HoldsAt (m : Memory) (s : WordIndex) (cs : List Calculation) : Prop where
  word : ∀ (i : Nat) (c : Calculation), cs[i]? = some c →
    ∃ w, m.words[s + i]? = some w ∧ w.decode = c.instruction
  inside : ∀ c ∈ cs, c.Inside m

/-- The calculations after the first stand from the next word on. -/
theorem Memory.HoldsAt.tail {m : Memory} {s : WordIndex} {c : Calculation} {cs : List Calculation}
    (h : m.HoldsAt s (c :: cs)) : m.HoldsAt (s + 1) cs where
  word := by
    intro i d hd
    rw [Nat.add_assoc, Nat.add_comm 1 i]
    exact h.word (i + 1) d hd
  inside := fun d hd => h.inside d (List.mem_cons_of_mem c hd)

/-! ### Single calculations -/

namespace Machine

/-- A word comes into the accumulator as its number. -/
theorem extend_eq_ofInt (w : Word) : extend w = Int32.ofInt w.toNat :=
  Int32.ofInt_eq_ofNat.symm

/-- An operand that is a literal or lies inside memory stands for a word. -/
theorem exists_operandWord {m : Machine} {o : Operand}
    (h : ∀ a, o = .cell a → a < m.memory.capacity) :
    ∃ w, m.operandWord o = some w ∧ Int32.ofInt (m.memory.number o) = extend w := by
  cases o with
  | literal w => exact ⟨w, rfl, (extend_eq_ofInt w).symm⟩
  | cell a =>
    have ha : a < m.memory.words.size := h a rfl
    have hword : m.memory.words[a]? = some m.memory.words[a] := Array.getElem?_eq_getElem ha
    refine ⟨_, hword, ?_⟩
    rw [Memory.number, hword, Option.getD_some, extend_eq_ofInt]

/-- A word takes the remainder by `65536` of the integer that the accumulator represents. -/
theorem toNat_truncate_ofInt (n : Int) : ((truncate (Int32.ofInt n)).toNat : Int) = n % 65536 := by
  have hrange : 0 ≤ (Int32.ofInt n).toInt % 65536 := Int.emod_nonneg _ (by decide)
  rw [toNat_truncate, Int.toNat_of_nonneg hrange, Int32.toInt_ofInt]
  have hdvd : (65536 : Int) ∣ (Int32.size : Int) := by decide
  rw [← Int.emod_emod_of_dvd (n.bmod Int32.size) hdvd, Int.bmod_emod, Int.emod_emod_of_dvd n hdvd]

/-- The words of memory after one has been replaced. -/
theorem getElem?_putWord {m : Machine} {a : WordIndex} (ha : a < m.memory.capacity) (v : Word) (i : Nat) :
    (m.putWord a v).memory.words[i]? = if i = a then some v else m.memory.words[i]? := by
  have hsize : a < m.memory.words.size := ha
  rw [putWord, Array.getElem?_setIfInBounds, if_pos hsize]
  simp only [eq_comm]

end Machine

/-- The operand of a calculation stands for a word. -/
theorem Calculation.Inside.exists_operandWord {m : Machine} {c : Calculation} {o : Operand}
    (h : c.Inside m.memory) (ho : c.instruction.operand? = some o) :
    ∃ w, m.operandWord o = some w ∧ Int32.ofInt (m.memory.number o) = Machine.extend w := by
  refine Machine.exists_operandWord fun a ha => h a ?_
  subst ha
  cases c <;> cases ho <;> rfl

/-- An accumulator that represents an integer represents after a calculation what that makes of the
integer. -/
theorem Calculation.executes {κ : Type} [Console κ] {m : Machine} {c : Calculation} {n : Int}
    (hinside : c.Inside m.memory) (hn : m.accumulator = Int32.ofInt n) (k : κ) :
    m.Executes k c.instruction (m.setAccumulator (Int32.ofInt (c.apply m.memory n))).advancePc k := by
  have hsame : m = m.setAccumulator (Int32.ofInt n) := by
    rw [← hn]
    rfl
  cases c with
  | load o =>
    obtain ⟨w, hw, hnumber⟩ := hinside.exists_operandWord rfl
    rw [apply, hnumber]
    exact .load hw
  | add o =>
    obtain ⟨w, hw, hnumber⟩ := hinside.exists_operandWord rfl
    rw [apply, Int32.ofInt_add, hnumber, ← hn]
    exact .add hw
  | sub o =>
    obtain ⟨w, hw, hnumber⟩ := hinside.exists_operandWord rfl
    rw [apply, Int32.ofInt_sub, hnumber, ← hn]
    exact .sub hw
  | mul o =>
    obtain ⟨w, hw, hnumber⟩ := hinside.exists_operandWord rfl
    rw [apply, Int32.ofInt_mul, hnumber, ← hn]
    exact .mul hw
  | neg =>
    rw [apply, Int32.ofInt_neg, ← hn]
    exact .neg
  | nop =>
    rw [apply, ← hsame]
    exact .nop
  | endMark =>
    rw [apply, ← hsame]
    exact .endMark

/-! ### Steps and runs -/

namespace Bench

variable {κ : Type} {b b' b'' : Bench κ} {n n' : Int} {k j : Nat}

/-- `b.Calculated k n b'`: after `k` calculations `b` has become `b'`, the accumulator represents `n`, and
memory and console are untouched. -/
structure Calculated (b : Bench κ) (k : Nat) (n : Int) (b' : Bench κ) : Prop where
  pc : b'.machine.pc = b.machine.pc + k
  memory : b'.machine.memory = b.machine.memory
  console : b'.console = b.console
  accumulator : b'.machine.accumulator = Int32.ofInt n

theorem Calculated.trans (h : b.Calculated k n b') (h' : b'.Calculated j n' b'') :
    b.Calculated (j + k) n' b'' where
  pc := by rw [h'.pc, h.pc, Nat.add_assoc, Nat.add_comm k j]
  memory := h'.memory.trans h.memory
  console := h'.console.trans h.console
  accumulator := h'.accumulator

variable [Console κ]

/-- A step at a calculation goes on. -/
theorem calculated_step {c : Calculation} {w : Word}
    (hw : b.machine.memory.words[b.machine.pc]? = some w) (hdecode : w.decode = c.instruction)
    (hinside : c.Inside b.machine.memory) (hn : b.machine.accumulator = Int32.ofInt n) :
    b.step.1 = .ok .running ∧ b.Calculated 1 (c.apply b.machine.memory n) b.step.2 := by
  -- a fetch touches neither the accumulator nor memory
  have hexec := Calculation.executes (m := b.machine.fetch w) hinside hn b.console
  rw [step_of_fetch hw, hdecode, hexec.execute_eq, c.statusAfter_instruction]
  exact ⟨rfl, rfl, rfl, rfl, rfl⟩

/-- Steps at consecutive calculations go on, and together make of the accumulator what the calculations
make of the integer. -/
theorem calculated_of_holdsAt {cs : List Calculation}
    (hcs : b.machine.memory.HoldsAt b.machine.pc cs) (hn : b.machine.accumulator = Int32.ofInt n) :
    b.RunsFor cs.length ∧
      b.Calculated cs.length (Calculation.evaluate b.machine.memory cs n) (b.after cs.length) := by
  induction cs generalizing b n with
  | nil => exact ⟨b.runsFor_zero, rfl, rfl, rfl, hn⟩
  | cons c cs ih =>
    obtain ⟨w, hw, hdecode⟩ := hcs.word 0 c rfl
    obtain ⟨hgoes, hfirst⟩ := calculated_step hw hdecode (hcs.inside c List.mem_cons_self) hn
    have hrest : b.step.2.machine.memory.HoldsAt b.step.2.machine.pc cs := by
      rw [hfirst.memory, hfirst.pc]
      exact hcs.tail
    obtain ⟨hruns, hothers⟩ := ih hrest hfirst.accumulator
    rw [hfirst.memory] at hothers
    rw [List.length_cons, after_succ]
    exact ⟨runsFor_succ_iff.mpr ⟨hgoes, hruns⟩, hfirst.trans hothers⟩

/-- A step at a STORE writes the remainder of the integer that the accumulator represents. -/
theorem step_of_store {a : WordIndex} {w : Word}
    (hw : b.machine.memory.words[b.machine.pc]? = some w) (hdecode : w.decode = .store a)
    (ha : a < b.machine.memory.capacity) (hn : b.machine.accumulator = Int32.ofInt n) :
    b.step.1 = .ok .running ∧ ∃ v : Word, (v.toNat : Int) = n % 65536 ∧
      ∀ i, b.step.2.machine.memory.words[i]? =
        if i = a then some v else b.machine.memory.words[i]? := by
  have hexec := Machine.Executes.store (m := b.machine.fetch w) (k := b.console) ha
  have hv : ((Machine.truncate (b.machine.fetch w).accumulator).toNat : Int) = n % 65536 := by
    have haccumulator : (b.machine.fetch w).accumulator = Int32.ofInt n := hn
    rw [haccumulator, Machine.toNat_truncate_ofInt]
  rw [step_of_fetch hw, hdecode, hexec.execute_eq]
  exact ⟨rfl, _, hv, Machine.getElem?_putWord ha _⟩

/-- Straight-line arithmetic is exact up to the size of a word.  If calculations stand at consecutive
words, as many steps all go on and come to the word behind the last one, memory and console are as
before, and the accumulator is the signed number of thirty-two bits that represents what the calculations
make of its old value when nothing is cut off.  A STORE that is executed next writes the remainder of the
exact value by `2 ^ 16`, and changes no other word. -/
theorem calculates_exactly {b : Bench κ} {cs : List Calculation}
    (hcs : b.machine.memory.HoldsAt b.machine.pc cs) :
    let n := Calculation.evaluate b.machine.memory cs b.machine.accumulator.toInt
    let c := b.after cs.length
    b.RunsFor cs.length ∧ c.machine.pc = b.machine.pc + cs.length ∧
      c.machine.memory = b.machine.memory ∧ c.console = b.console ∧
      c.machine.accumulator.toInt = Reference.wrap n ∧
      ∀ (a : WordIndex) (w : Word), b.machine.memory.words[b.machine.pc + cs.length]? = some w →
        w.decode = .store a → a < b.machine.memory.capacity →
        c.step.1 = .ok .running ∧ ∃ v : Word, (v.toNat : Int) = n % 65536 ∧
          ∀ i, c.step.2.machine.memory.words[i]? =
            if i = a then some v else b.machine.memory.words[i]? := by
  intro n c
  have hstart : b.machine.accumulator = Int32.ofInt b.machine.accumulator.toInt :=
    (Int32.ofInt_toInt _).symm
  obtain ⟨hruns, hpc, hmemory, hconsole, haccumulator⟩ := calculated_of_holdsAt hcs hstart
  refine ⟨hruns, hpc, hmemory, hconsole, ?_, fun a w hw hdecode ha => ?_⟩
  · rw [haccumulator]
    exact Int32.toInt_ofInt
  · rw [← hmemory, ← hpc] at hw
    rw [← hmemory] at ha ⊢
    exact step_of_store hw hdecode ha haccumulator

/-- The least accumulator of all has no negative.  Two products leave the thirty-two bits far behind, and
the last operand is a word of the program itself. -/
theorem calculates_exactly_of_least_accumulator :
    let start : Bench TokenQueue :=
      ⟨{ registers := { accumulator := -2147483648, pc := 1 }, memory := ⟨#[0xFFFF, 0xA000, 0x7000,
          0x7001, 0x6FFF, 0xB123, 0x0ABC, 0x5004, 0x2006]⟩ }, ⟨["1"], {}⟩, #[]⟩
    let cs : List Calculation := [.neg, .mul (.cell 0), .mul (.cell 0), .sub (.literal 2047), .nop,
      .endMark, .add (.cell 2)]
    start.machine.memory.HoldsAt 1 cs ∧ Word.decode 0x2006 = .store 3 ∧
      Calculation.evaluate start.machine.memory cs (-2147483648) =
        2147483648 * 65535 * 65535 - 2047 + 28672 ∧
      start.RunsFor 7 ∧
      (start.after 7).machine.accumulator.toInt =
        Reference.wrap (2147483648 * 65535 * 65535 - 2047 + 28672) ∧
      (start.after 7).step.2.machine.memory.words[3]? = some 26625 := by
  intro start cs
  have hwords : ∀ i : Fin 7, start.machine.memory.words[1 + i.val]?.map Word.decode =
      cs[i.val]?.map Calculation.instruction := by
    decide +kernel
  have hcells : ∀ c ∈ cs, c.instruction.cell?.all (fun a => a < 9) = true := by decide
  have hholds : start.machine.memory.HoldsAt 1 cs := by
    refine ⟨fun i c hc => ?_, fun c hc a ha => ?_⟩
    · have hi : i < 7 := (List.getElem?_eq_some_iff.mp hc).1
      have hword := hwords ⟨i, hi⟩
      rw [hc] at hword
      exact Option.map_eq_some_iff.mp hword
    · have hcell := hcells c hc
      rw [ha] at hcell
      exact of_decide_eq_true hcell
  have hexact : Calculation.evaluate start.machine.memory cs (-2147483648) =
      2147483648 * 65535 * 65535 - 2047 + 28672 := by
    decide
  have hdecode : Word.decode 0x2006 = .store 3 := by decide
  have hleast : start.machine.accumulator.toInt = -2147483648 := by decide
  have hlength : cs.length = 7 := rfl
  obtain ⟨hruns, -, -, -, haccumulator, hstore⟩ := calculates_exactly hholds
  obtain ⟨-, v, hv, hmemory⟩ := hstore 3 0x2006 rfl hdecode (by decide)
  rw [hleast, hexact] at haccumulator hv
  have hstored : (v.toNat : Int) = 26625 := hv.trans (by decide)
  have hremainder : v = 26625 := UInt16.toNat_inj.mp (Int.ofNat_inj.mp hstored)
  have hthird := hmemory 3
  rw [if_pos rfl, hremainder, hlength] at hthird
  exact ⟨hholds, hdecode, hexact, hruns, haccumulator, hthird⟩

end Bench

end WordMachine
