import WordMachine.Proofs.Run

/-!
# Fetches

A step begins with the fetch of a word, unless the program counter points outside memory.  A `Fetch`
keeps what is known at that moment: the word, its index and the accumulator.  It decides what becomes
of the program counter, the latch and the counters in that step, whether the instruction then succeeds
or fails; `Machine.Attempts` says how, and `Bench.attempts_of_nextFetch` that every step with a fetch
does so.  Everything that is proved later about these parts of a machine comes from there.

`Bench.fetches b n` are the fetches of the first `n` steps in order, and `Bench.begun b n` is the
number of steps that a run begins to which `n` are allowed.
-/

namespace WordMachine

/-- A fetch: the word, its index, and the accumulator before the word is executed. -/
structure Fetch where
  word : Word
  pc : WordIndex
  accumulator : Int32
deriving DecidableEq, Repr

/-- The word is a jump that goes to its target: JMP, or a conditional jump whose condition holds. -/
def Fetch.jumps (f : Fetch) : Bool :=
  match f.word.opcode with
  | .jmp => true
  | .jneg => f.accumulator < 0
  | .jzero => f.accumulator = 0
  | _ => false

/-- Only a jump can go to its target. -/
theorem Fetch.category_of_jumps {f : Fetch} (h : f.jumps = true) :
    f.word.opcode.category = .jump := by
  rw [jumps] at h
  cases ho : f.word.opcode <;> rw [ho] at h <;> first | rfl | cases h

/-! ### Jumps and other instructions -/

/-- Whether a jump is taken when the accumulator is `x`, and its target.  Other instructions have
neither. -/
def Instruction.jump? (x : Int32) : Instruction → Option (Bool × WordIndex)
  | jmp a => some (true, a)
  | jneg a => some (x < 0, a)
  | jzero a => some (x = 0, a)
  | _ => none

/-- The index that an instruction carries. -/
def Instruction.index? : Instruction → Option WordIndex
  | load (.cell a) | add (.cell a) | sub (.cell a) | mul (.cell a) | div (.cell a)
  | mod (.cell a) | store a | read a | write a | jmp a | jneg a | jzero a => some a
  | _ => none

/-- The word of memory that an instruction works with is at the index it carries. -/
theorem Instruction.index?_of_cell? {i : Instruction} {a : WordIndex} (h : i.cell? = some a) :
    i.index? = some a := by
  unfold Instruction.cell? at h
  split at h <;> first | exact h | cases h

namespace Word

/-- An index that a decoded instruction carries is the target of its word. -/
theorem eq_target_of_index? {w : Word} {a : WordIndex} (h : w.decode.index? = some a) :
    a = w.target := by
  rw [decode] at h
  cases ho : w.opcode <;> rw [ho] at h
  case endMark | neg | nop | halt => cases h
  case store | read | write | jmp | jneg | jzero => exact (Option.some.inj h).symm
  case load | add | sub | mul | div | mod =>
    rw [operand] at h
    by_cases hl : (w.opcode.hasMode && w.isLiteral) = true
    · rw [if_pos hl] at h
      cases h
    · rw [if_neg hl] at h
      exact (Option.some.inj h).symm

/-- An operand field of twelve bits counts bytes, two to a word. -/
theorem target_le (w : Word) : w.target ≤ 2047 := by
  have hhalf : w.toNat % 4096 / 2 ≤ 2047 := by omega
  rw [target_eq]
  exact hhalf

/-- A decoded instruction is a jump if its operation is, and then goes to the target of its word. -/
theorem jump?_decode (f : Fetch) :
    f.word.decode.jump? f.accumulator =
      if f.word.opcode.category = .jump then some (f.jumps, f.word.target) else none := by
  rw [decode, Fetch.jumps]
  cases f.word.opcode <;> rfl

end Word

/-! ### What a fetch decides -/

namespace Machine

/-- The fetch with which the next step begins, if there is a word to fetch. -/
def nextFetch? (m : Machine) : Option Fetch :=
  m.memory.words[m.pc]?.map fun w => ⟨w, m.pc, m.accumulator⟩

theorem nextFetch?_eq_none_iff {m : Machine} :
    m.nextFetch? = none ↔ m.memory.capacity ≤ m.pc := by
  rw [nextFetch?, Option.map_eq_none_iff]
  exact Array.getElem?_eq_none_iff

/-- `m.Attempts f m'`: the step that begins with the fetch `f` has led from `m` to `m'`, as far as the
fetch alone decides it. -/
structure Attempts (m : Machine) (f : Fetch) (m' : Machine) : Prop where
  ir : m'.registers.ir = f.word
  opcode : m'.registers.opcode = f.word.opcode
  operand : m'.registers.operand = f.word.operandField
  capacity : m'.memory.capacity = m.memory.capacity
  tracing : m'.tracing = m.tracing
  /-- The fetch is counted, and its outcome as well if it is a jump. -/
  tally : m'.tally =
    if f.word.opcode.category = .jump then (m.tally.record f.word.opcode).recordJump f.jumps
    else m.tally.record f.word.opcode
  /-- A jump that is taken goes to its target. -/
  pc_of_jumps : f.jumps = true → m'.pc = f.word.target
  /-- Any other instruction goes on with the next word, or stays where it is. -/
  pc_of_not_jumps : f.jumps = false → m'.pc = m.pc ∨ m'.pc = m.pc.next

variable {κ : Type} [Console κ] {m m' : Machine} {k k' : κ} {i : Instruction}

/-- No instruction touches the latch, the size of memory or the tracing switch. -/
theorem Executes.frame (h : m.Executes k i m' k') :
    m'.registers.ir = m.registers.ir ∧ m'.registers.opcode = m.registers.opcode ∧
      m'.registers.operand = m.registers.operand ∧ m'.memory.capacity = m.memory.capacity ∧
      m'.tracing = m.tracing := by
  have hput (a : WordIndex) (w : Word) :
      (m.putWord a w).memory.capacity = m.memory.capacity := by
    simp [putWord, Memory.capacity]
  cases h with
  | store | read => exact ⟨rfl, rfl, rfl, hput _ _, rfl⟩
  | jneg =>
    rw [jump]
    split <;> exact ⟨rfl, rfl, rfl, rfl, rfl⟩
  | jzero =>
    rw [jump]
    split <;> exact ⟨rfl, rfl, rfl, rfl, rfl⟩
  | _ => exact ⟨rfl, rfl, rfl, rfl, rfl⟩

/-- A jump that is executed does nothing else. -/
theorem Executes.eq_jump {taken : Bool} {a : WordIndex} (h : m.Executes k i m' k')
    (hjump : i.jump? m.accumulator = some (taken, a)) : m' = m.jump taken a := by
  cases h with
  | jmp | jneg | jzero =>
    cases hjump
    rfl
  | _ => cases hjump

/-- Any other instruction leaves the tally alone, and goes on with the next word or stays. -/
theorem Executes.of_jump?_eq_none (h : m.Executes k i m' k')
    (hjump : i.jump? m.accumulator = none) :
    m'.tally = m.tally ∧ (m'.pc = m.pc ∨ m'.pc = m.pc.next) := by
  cases h with
  | jmp | jneg | jzero => cases hjump
  | halt => exact ⟨rfl, .inl rfl⟩
  | _ => exact ⟨rfl, .inr rfl⟩

/-- A jump cannot fail. -/
theorem Faults.jump?_eq_none {e : Failure} (h : m.Faults k i e k') (x : Int32) :
    i.jump? x = none := by
  cases h with
  | request | exhausted | target | emission => rfl
  | cell huses _ => cases i <;> first | rfl | cases huses
  | zero hdivides _ => cases i <;> first | rfl | cases hdivides

/-- A step by a rule for success does what its fetch decides. -/
theorem Executes.attempts {w : Word} (h : (m.fetch w).Executes k w.decode m' k') :
    m.Attempts ⟨w, m.pc, m.accumulator⟩ m' := by
  obtain ⟨hir, hopcode, hoperand, hcapacity, htracing⟩ := h.frame
  have hdecode := Word.jump?_decode ⟨w, m.pc, m.accumulator⟩
  by_cases hcategory : w.opcode.category = .jump
  · rw [if_pos hcategory] at hdecode
    obtain rfl := h.eq_jump hdecode
    refine ⟨hir, hopcode, hoperand, hcapacity, htracing, ?_, fun hjumps => ?_, fun hjumps => ?_⟩
    · rw [if_pos hcategory, jump]
      split <;> rfl
    · rw [jump, if_pos hjumps]
      rfl
    · rw [jump, if_neg (Bool.eq_false_iff.mp hjumps)]
      exact .inr rfl
  · rw [if_neg hcategory] at hdecode
    obtain ⟨htally, hpc⟩ := h.of_jump?_eq_none hdecode
    refine ⟨hir, hopcode, hoperand, hcapacity, htracing, ?_, fun hjumps => ?_, fun _ => hpc⟩
    · rw [if_neg hcategory]
      exact htally
    · exact absurd (Fetch.category_of_jumps hjumps) hcategory

/-- So does a step by a rule for failure. -/
theorem Faults.attempts {w : Word} {e : Failure} (h : (m.fetch w).Faults k w.decode e k') :
    m.Attempts ⟨w, m.pc, m.accumulator⟩ (m.fetch w) := by
  have hdecode := Word.jump?_decode ⟨w, m.pc, m.accumulator⟩
  have hcategory : w.opcode.category ≠ .jump := by
    intro hcategory
    rw [if_pos hcategory, h.jump?_eq_none] at hdecode
    cases hdecode
  refine ⟨rfl, rfl, rfl, rfl, rfl, ?_, fun hjumps => ?_, fun _ => .inl rfl⟩
  · rw [if_neg hcategory]
    rfl
  · exact absurd (Fetch.category_of_jumps hjumps) hcategory

end Machine

/-! ### Steps -/

namespace Bench

variable {κ : Type} [Console κ] {b b' : Bench κ}

/-- A step with a fetch does what the fetch decides. -/
theorem attempts_of_nextFetch {f : Fetch} (h : b.machine.nextFetch? = some f) :
    b.machine.Attempts f b.step.2.machine := by
  obtain ⟨w, hw, rfl⟩ := Option.map_eq_some_iff.mp h
  rcases hstep : b.step with ⟨e | st, c⟩
  · rcases step_eq_error_iff.mp hstep with ⟨hle, -, -⟩ | ⟨v, hv, hfault, hmachine, -⟩
    · rw [Array.getElem?_eq_none hle] at hw
      cases hw
    · cases hv.symm.trans hw
      rw [hmachine]
      exact hfault.attempts
  · obtain ⟨v, hv, hexec, -, -⟩ := step_eq_ok_iff.mp hstep
    cases hv.symm.trans hw
    exact hexec.attempts

/-- A step without a fetch does nothing. -/
theorem step_of_nextFetch_eq_none (h : b.machine.nextFetch? = none) :
    b.step = (.error (b.machine.memory.outOfBounds b.machine.pc), b) :=
  step_of_le (Machine.nextFetch?_eq_none_iff.mp h)

/-! ### The fetches of many steps -/

/-- The fetches of the first `n` steps, in order. -/
def fetches (b : Bench κ) : Nat → List Fetch
  | 0 => []
  | n + 1 => b.fetches n ++ (b.after n).machine.nextFetch?.toList

theorem fetches_one (b : Bench κ) : b.fetches 1 = b.machine.nextFetch?.toList :=
  List.nil_append _

/-- What holds of a machine before the first fetch, and is kept by every step that begins with one, holds
after any number of steps, and of their fetches. -/
theorem fetches_induct {P : List Fetch → Machine → Prop} (start : P [] b.machine)
    (attempt : ∀ {fs m f m'}, P fs m → m.nextFetch? = some f → m.Attempts f m' → P (fs ++ [f]) m')
    (n : Nat) : P (b.fetches n) (b.after n).machine := by
  induction n with
  | zero => exact start
  | succ n ih =>
    rw [fetches, after]
    cases hfetch : (b.after n).machine.nextFetch? with
    | none =>
      rw [step_of_nextFetch_eq_none hfetch, Option.toList_none, List.append_nil]
      exact ih
    | some f => exact attempt ih hfetch (attempts_of_nextFetch hfetch)

/-- A step that succeeds has begun with a fetch. -/
theorem nextFetch?_ne_none_of_step_eq_ok {st : Status} (h : b.step.1 = .ok st) :
    b.machine.nextFetch? ≠ none := by
  intro hnone
  rw [step_of_nextFetch_eq_none hnone] at h
  cases h

/-- As long as every step goes on, there are as many fetches as steps. -/
theorem RunsFor.length_fetches {n : Nat} (h : b.RunsFor n) : (b.fetches n).length = n := by
  induction n with
  | zero => rfl
  | succ n ih =>
    have hfetch := nextFetch?_ne_none_of_step_eq_ok (h n (Nat.lt_succ_self n))
    obtain ⟨f, hf⟩ := Option.ne_none_iff_exists'.mp hfetch
    rw [fetches, List.length_append, ih (h.of_le (Nat.le_succ n)), hf]
    rfl

/-! ### The steps that a run begins -/

/-- The number of steps that a run begins to which `n` are allowed: all of them, or those up to the
first that does not go on. -/
def begun (b : Bench κ) : Nat → Nat
  | 0 => 0
  | n + 1 =>
    match b.step with
    | (.ok .running, b') => b'.begun n + 1
    | _ => 1

/-- As long as every step goes on, all steps are begun. -/
theorem RunsFor.begun_eq {n : Nat} (h : b.RunsFor n) : b.begun n = n := by
  induction n generalizing b with
  | zero => rfl
  | succ n ih =>
    obtain ⟨hfirst, hrest⟩ := runsFor_succ_iff.mp h
    have hstep : b.step = (.ok .running, b.step.2) := Prod.ext hfirst rfl
    rw [begun, hstep]
    exact congrArg (· + 1) (ih hrest)

/-- The first step that does not go on is the last that is begun. -/
theorem begun_of_stop {j n : Nat} (hruns : b.RunsFor j) (hstop : (b.after j).step.1 ≠ .ok .running)
    (hj : j < n) : b.begun n = j + 1 := by
  obtain ⟨n, rfl⟩ := Nat.exists_eq_add_one_of_ne_zero (Nat.ne_zero_of_lt hj)
  induction j generalizing b n with
  | zero =>
    rw [begun]
    split
    · next hstep => exact absurd (congrArg Prod.fst hstep) hstop
    · rfl
  | succ j ih =>
    obtain ⟨hfirst, hrest⟩ := runsFor_succ_iff.mp hruns
    have hstep : b.step = (.ok .running, b.step.2) := Prod.ext hfirst rfl
    have hj' : j < n := Nat.lt_of_succ_lt_succ hj
    obtain ⟨n, rfl⟩ := Nat.exists_eq_add_one_of_ne_zero (Nat.ne_zero_of_lt hj')
    rw [after_succ] at hstop
    rw [begun, hstep]
    exact congrArg (· + 1) (ih hrest hstop n hj')

/-- No more steps are begun than are allowed. -/
theorem begun_le (b : Bench κ) (n : Nat) : b.begun n ≤ n := by
  rcases b.runsFor_or_stops n with hruns | ⟨j, hj, hruns, hstop⟩
  · exact Nat.le_of_eq hruns.begun_eq
  · rw [begun_of_stop hruns hstop hj]
    exact hj

/-- A run that ends with step number `k` has begun `k` steps. -/
theorem Ends.begun_eq {k n : Nat} {r : Except Failure Nat} (h : b.Ends k r b') (hk : k ≤ n) :
    b.begun n = k := by
  cases h with
  | halted hruns hstep | unflushed hruns hstep | failed hruns hstep =>
    refine begun_of_stop hruns ?_ hk
    rw [hstep]
    nofun

/-- All steps that a run begins go on, but for the last. -/
theorem runsFor_begun (b : Bench κ) (n : Nat) : b.RunsFor (b.begun n - 1) := by
  rcases b.runsFor_or_stops n with hruns | ⟨j, hj, hruns, hstop⟩
  · rw [hruns.begun_eq]
    exact hruns.of_le (Nat.sub_le n 1)
  · rw [begun_of_stop hruns hstop hj]
    exact hruns

/-- There are as many fetches as steps are begun, or one less if the last step could not fetch. -/
theorem length_fetches_begun (b : Bench κ) (n : Nat) :
    (b.fetches (b.begun n)).length =
      if (b.after (b.begun n - 1)).machine.nextFetch? = none then b.begun n - 1
      else b.begun n := by
  have hruns := b.runsFor_begun n
  cases hbegun : b.begun n with
  | zero => split <;> rfl
  | succ k =>
    rw [hbegun, Nat.add_sub_cancel] at hruns
    rw [fetches, List.length_append, hruns.length_fetches, Nat.add_sub_cancel]
    cases (b.after k).machine.nextFetch? <;> rfl

/-- A run leaves the machine of the last step that it begins. -/
theorem machine_eq_of_run {patience : Nat} {limit : Option Nat} {r : Except Failure Nat}
    (h : b.run patience limit = some (r, b')) :
    b'.machine = (b.after (b.begun (limit.getD patience))).machine := by
  rcases run_eq_some_iff.mp h with ⟨n, rfl, hruns, -, rfl⟩ | ⟨k, hk, hends⟩
  · rw [Option.getD_some, hruns.begun_eq]
  · rw [hends.begun_eq hk]
    exact hends.last_step.1

end Bench

end WordMachine
