import WordMachine.Proofs.Loading

/-!
# A larger memory never changes a run that fits

A machine has more room when words are put behind its memory: `Memory.widen m tail` has the words of
`m` and then those of `tail`, whatever they are.  A machine that stays inside its memory cannot see
the difference.  Every access of memory is to an index inside it or fails, and a word that is there
is the same word in the wider memory; so each rule for success and each failure other than one of
memory holds on the wider machine as well, and leaves the tail where it is.

This goes through a step (`Bench.step_widen`), a run (`Bench.run_widen`) and loading
(`Bench.load_widen`), one layer of the machine after the other.  A *session* is what comes of any
operations done at a bench one after another, with the result and the bench after each of them.  The
main statement, `Bench.session_of_larger_memory`, says that the session on a machine with a larger
memory is the same at every point, the words behind the smaller memory untouched.  As these may be any
words, it also says that none of them is ever looked at.
-/

namespace WordMachine

/-- The result is not that a word lay outside memory. -/
def Inside {α : Type} (r : Except Failure α) : Prop :=
  ∀ index capacity, r ≠ .error (.memoryOutOfBounds index capacity)

instance {α : Type} : (r : Except Failure α) → Decidable (Inside r)
  | .error (.memoryOutOfBounds index capacity) => .isFalse fun h => h index capacity rfl
  | .error (.divisionByZero _) | .error (.inputExhausted _) | .error (.stepLimitExceeded _)
  | .error (.io _) | .error (.invalidSettings _) | .error (.malformedSettings _)
  | .ok _ => .isTrue fun _ _ => nofun

theorem inside_ok {α : Type} (a : α) : Inside (.ok a) := by
  intro index capacity h
  cases h

/-- What a result tells does not matter. -/
theorem inside_map_iff {α β : Type} (f : α → β) (r : Except Failure α) :
    Inside (r.map f) ↔ Inside r := by
  cases r with
  | ok a => exact ⟨fun _ => inside_ok a, fun _ => inside_ok (f a)⟩
  | error e =>
    constructor <;>
    · intro h index capacity heq
      cases heq
      exact h index capacity rfl

/-! ### Wider memories -/

namespace Memory

/-- The memory with more words behind those it has. -/
def widen (tail : Array Word) (m : Memory) : Memory :=
  ⟨m.words ++ tail⟩

variable {m m' : Memory} {tail : Array Word}

@[simp] theorem capacity_widen : (m.widen tail).capacity = m.capacity + tail.size :=
  Array.size_append

theorem lt_capacity_widen {i : Nat} (h : i < m.capacity) : i < (m.widen tail).capacity := by
  rw [capacity_widen]
  exact Nat.lt_add_right _ h

/-- A memory that is no smaller and has the same words as far as the other goes is a wider one. -/
theorem eq_widen_of_agree {large : Memory} (hsize : m.capacity ≤ large.capacity)
    (hagree : ∀ i : Nat, i < m.capacity → large.words[i]? = m.words[i]?) :
    large = m.widen (large.words.extract m.capacity) := by
  obtain ⟨ws⟩ := large
  rw [widen, mk.injEq]
  apply Array.ext_getElem?
  intro i
  rw [Array.getElem?_append]
  by_cases hi : i < m.words.size
  · rw [if_pos hi]
    exact hagree i hi
  · have hback : m.capacity + (i - m.words.size) = i := Nat.add_sub_of_le (Nat.le_of_not_lt hi)
    rw [if_neg hi, Array.getElem?_extract, Nat.min_self, hback]
    split
    · rfl
    · next hout =>
      have hcapacity : m.capacity = m.words.size := rfl
      have hend : ws.size ≤ i := by
        dsimp only at hout
        omega
      exact Array.getElem?_eq_none hend

/-- A word that is there is the same in the wider memory. -/
theorem getElem?_widen_of_eq_some {i : Nat} {w : Word} (h : m.words[i]? = some w) :
    (m.widen tail).words[i]? = some w := by
  obtain ⟨hi, -⟩ := Array.getElem?_eq_some_iff.mp h
  rw [widen, Array.getElem?_append_left hi]
  exact h

/-- A word that is replaced inside memory is replaced in the wider memory. -/
theorem setIfInBounds_widen {i : Nat} (h : i < m.capacity) (w : Word) :
    (m.widen tail).words.setIfInBounds i w = m.words.setIfInBounds i w ++ tail :=
  Array.setIfInBounds_append_left h

/-- A block that can be written can be written in the wider memory. -/
theorem writeFrom_widen {i : Nat} {ws : List Word} (h : m.writeFrom i ws = .ok m') :
    (m.widen tail).writeFrom i ws = .ok (m'.widen tail) := by
  induction ws generalizing m i with
  | nil =>
    cases h
    rfl
  | cons w ws ih =>
    rw [writeFrom] at h ⊢
    rcases Nat.lt_or_ge i m.capacity with hlt | hge
    · rw [write_of_lt hlt] at h
      rw [write_of_lt (lt_capacity_widen hlt), setIfInBounds_widen hlt]
      exact ih h
    · rw [write_of_le hge] at h
      cases h

/-- An image that fits also fits the wider memory. -/
theorem loadImage_widen {image : List Word} (h : Inside (m.loadImage image)) :
    (m.widen tail).loadImage image = (m.loadImage image).map (widen tail) := by
  rcases Nat.lt_or_ge m.capacity image.length with hlarge | hfits
  · rw [loadImage_of_lt hlarge] at h
    exact absurd rfl (h _ _)
  · have hwide : image.length ≤ (m.widen tail).capacity := by
      rw [capacity_widen]
      exact Nat.le_add_right_of_le hfits
    obtain ⟨m', hload, -⟩ := loadImage_of_le hfits
    have hwrite : m.writeFrom 0 image = .ok m' := by
      rw [loadImage, if_pos hfits] at hload
      exact hload
    rw [hload, loadImage, if_pos hwide]
    exact writeFrom_widen hwrite

end Memory

/-! ### Instructions -/

namespace Machine

/-- The machine with more words behind its memory. -/
def widen (tail : Array Word) (m : Machine) : Machine :=
  { m with memory := m.memory.widen tail }

variable {m m' : Machine} {tail : Array Word}

/-- An operand that stands for a word stands for the same word. -/
theorem operandWord_widen {o : Operand} {w : Word} (h : m.operandWord o = some w) :
    (m.widen tail).operandWord o = some w := by
  cases o with
  | literal v => exact h
  | cell a => exact Memory.getElem?_widen_of_eq_some h

theorem putWord_widen {a : WordIndex} (h : a < m.memory.capacity) (w : Word) :
    (m.widen tail).putWord a w = (m.putWord a w).widen tail := by
  rw [putWord, widen, Memory.setIfInBounds_widen h]
  rfl

/-- A jump has nothing to do with memory. -/
theorem jump_widen (taken : Bool) (a : WordIndex) :
    (m.widen tail).jump taken a = (m.jump taken a).widen tail := by
  cases taken <;> rfl

variable {κ : Type} [Console κ] {k k' : κ} {i : Instruction}

/-- An instruction that succeeds also succeeds on the wider machine, which stays the wider one. -/
theorem Executes.widen (h : m.Executes k i m' k') :
    (m.widen tail).Executes k i (m'.widen tail) k' := by
  cases h with
  | endMark => exact .endMark
  | nop => exact .nop
  | load hw => exact .load (operandWord_widen hw)
  | store hlt =>
    have hput := Executes.store (m := m.widen tail) (k := k) (Memory.lt_capacity_widen hlt)
    rw [putWord_widen hlt] at hput
    exact hput
  | read hr hlt =>
    have hput := Executes.read (m := m.widen tail) hr (Memory.lt_capacity_widen hlt)
    rw [putWord_widen hlt] at hput
    exact hput
  | write hw hwr => exact .write (Memory.getElem?_widen_of_eq_some hw) hwr
  | add hw => exact .add (operandWord_widen hw)
  | sub hw => exact .sub (operandWord_widen hw)
  | mul hw => exact .mul (operandWord_widen hw)
  | div hw hz => exact .div (operandWord_widen hw) hz
  | mod hw hz => exact .mod (operandWord_widen hw) hz
  | neg => exact .neg
  | jmp =>
    rw [← jump_widen]
    exact .jmp
  | jneg =>
    rw [← jump_widen]
    exact .jneg
  | jzero =>
    rw [← jump_widen]
    exact .jzero
  | halt => exact .halt

/-- An instruction that fails for another reason than memory fails in the same way on the wider
machine. -/
theorem Faults.widen {e : Failure} (h : m.Faults k i e k')
    (hinside : Inside (.error e : Except Failure Status)) : (m.widen tail).Faults k i e k' := by
  cases h with
  | request hr => exact .request hr
  | exhausted hr => exact .exhausted hr
  | target hr hge => exact absurd rfl (hinside _ _)
  | cell huses hge => exact absurd rfl (hinside _ _)
  | zero hdivides hz => exact .zero hdivides (operandWord_widen hz)
  | emission hw hwr => exact .emission (Memory.getElem?_widen_of_eq_some hw) hwr

end Machine

/-! ### Steps -/

namespace Bench

variable {κ : Type}

/-- The bench with more words behind the memory of its machine. -/
def widen (tail : Array Word) (b : Bench κ) : Bench κ :=
  { b with machine := b.machine.widen tail }

section Running

variable [Console κ] {b : Bench κ} {tail : Array Word}

/-- A step that stays inside memory is the same on the wider machine. -/
theorem step_widen (h : Inside b.step.1) :
    (b.widen tail).step = Prod.map id (widen tail) b.step := by
  rcases hstep : b.step with ⟨e | st, b'⟩
  · rw [hstep] at h
    rcases step_eq_error_iff.mp hstep with ⟨-, rfl, -⟩ | ⟨w, hw, hfault, hmachine, hlog⟩
    · exact absurd rfl (h _ _)
    · refine step_eq_error_iff.mpr (.inr ⟨w, ?_, ?_, ?_, hlog⟩)
      · exact Memory.getElem?_widen_of_eq_some hw
      · exact hfault.widen h
      · show b'.machine.widen tail = (b.machine.widen tail).fetch w
        rw [hmachine]
        rfl
  · obtain ⟨w, hw, hexec, hstatus, hlog⟩ := step_eq_ok_iff.mp hstep
    exact step_eq_ok_iff.mpr ⟨w, Memory.getElem?_widen_of_eq_some hw, hexec.widen, hstatus, hlog⟩

/-! ### Runs -/

/-- The steps up to the end of a run are the same, unless one of them leaves memory. -/
theorem advance_widen {n : Nat} {taken : Nat}
    (h : ∀ index capacity, (b.advance taken n).1 ≠ .failed (.memoryOutOfBounds index capacity)) :
    (b.widen tail).advance taken n = Prod.map id (widen tail) (b.advance taken n) := by
  induction n generalizing b taken with
  | zero => rfl
  | succ n ih =>
    rcases hstep : b.step with ⟨r, b'⟩
    rw [advance, hstep] at h
    have hinside : Inside b.step.1 := by
      rw [hstep]
      rintro index capacity rfl
      exact h index capacity rfl
    rw [advance, advance, step_widen hinside, hstep]
    rcases r with e | _ | _
    · rfl
    · exact ih h
    · rfl

/-- The end of a run has nothing to do with memory. -/
theorem finish_widen (steps : Nat) :
    (b.widen tail).finish steps = Prod.map id (widen tail) (b.finish steps) := by
  rw [finish, finish, widen]
  rcases Console.flush b.console with ⟨e | _, k⟩ <;> rfl

/-- A run with a limit that stays inside memory is the same on the wider machine. -/
theorem runWithin_widen {limit : Nat} (h : Inside (b.runWithin limit).1) :
    (b.widen tail).runWithin limit = Prod.map id (widen tail) (b.runWithin limit) := by
  rcases hadvance : b.advance 0 limit with ⟨p, b'⟩
  rw [runWithin, hadvance] at h
  have hwide : (b.widen tail).advance 0 limit = Prod.map id (widen tail) (b.advance 0 limit) := by
    refine advance_widen fun index capacity heq => ?_
    rw [hadvance] at heq
    cases heq
    exact h index capacity rfl
  rw [runWithin, runWithin, hwide, hadvance]
  cases p with
  | running => rfl
  | halted steps => exact finish_widen steps
  | failed e => rfl

/-- So is a run without a limit, and if there is no answer within the patience of the observer, there
is none on the wider machine either. -/
theorem runObserved_widen {patience : Nat} (h : ∀ x ∈ b.runObserved patience, Inside x.1) :
    (b.widen tail).runObserved patience =
      (b.runObserved patience).map (Prod.map id (widen tail)) := by
  rcases hadvance : b.advance 0 patience with ⟨p, b'⟩
  rw [runObserved, hadvance] at h
  have hwide :
      (b.widen tail).advance 0 patience = Prod.map id (widen tail) (b.advance 0 patience) := by
    refine advance_widen fun index capacity heq => ?_
    rw [hadvance] at heq
    cases heq
    exact h _ rfl index capacity rfl
  rw [runObserved, runObserved, hwide, hadvance]
  cases p with
  | running => rfl
  | halted steps => exact congrArg some (finish_widen steps)
  | failed e => rfl

/-- Any run that stays inside memory is the same on the wider machine. -/
theorem run_widen {patience : Nat} {limit : Option Nat}
    (h : ∀ x ∈ b.run patience limit, Inside x.1) :
    (b.widen tail).run patience limit =
      (b.run patience limit).map (Prod.map id (widen tail)) := by
  cases limit with
  | some limit => exact congrArg some (runWithin_widen (h _ rfl))
  | none => exact runObserved_widen h

omit [Console κ] in
/-- The note on a failed run has nothing to do with memory. -/
theorem noteAbort_widen (x : Except Failure Nat × Bench κ) :
    noteAbort (Prod.map id (widen tail) x) = Prod.map id (widen tail) (noteAbort x) := by
  obtain ⟨_ | _, _⟩ := x <;> rfl

end Running

/-! ### Loading -/

section Loading

variable [FiniteConsole κ] {b : Bench κ} {tail : Array Word}

/-- Reading a program has nothing to do with memory. -/
theorem readProgram_widen :
    (b.widen tail).readProgram = Prod.map id (widen tail) b.readProgram := by
  rw [readProgram, readProgram, widen]
  rcases Program.read b.console with ⟨e | words, k⟩ <;> rfl

omit [FiniteConsole κ] in
/-- An image that fits is loaded on the wider machine in the same way. -/
theorem loadImage_widen {image : List Word} (h : Inside (b.loadImage image).1) :
    (b.widen tail).loadImage image = Prod.map id (widen tail) (b.loadImage image) := by
  have hinside : Inside (b.machine.memory.loadImage image) := by
    intro index capacity heq
    rw [loadImage, heq] at h
    exact h index capacity rfl
  have hwide : (b.widen tail).machine.memory.loadImage image = _ :=
    Memory.loadImage_widen hinside
  rw [loadImage, hwide, loadImage]
  cases b.machine.memory.loadImage image <;> rfl

/-- So is a program that fits. -/
theorem loadProgram_widen (h : Inside b.loadProgram.1) :
    (b.widen tail).loadProgram = Prod.map id (widen tail) b.loadProgram := by
  rcases hread : b.readProgram with ⟨e | words, b'⟩
  · rw [loadProgram, loadProgram, readProgram_widen, hread]
    rfl
  · rw [loadProgram, hread] at h
    rw [loadProgram, loadProgram, readProgram_widen, hread]
    exact loadImage_widen h

/-- Loading adds to this only an entry in the tally and in the log. -/
theorem load_widen (h : Inside b.load.1) :
    (b.widen tail).load = Prod.map id (widen tail) b.load := by
  rcases hprogram : b.loadProgram with ⟨r, b'⟩
  rw [load, hprogram] at h
  have hinside : Inside b.loadProgram.1 := by
    rw [hprogram]
    rintro index capacity rfl
    exact h index capacity rfl
  rw [load, load, loadProgram_widen hinside, hprogram]
  cases r <;> rfl

/-- A run under settings is a run with their limit. -/
theorem runUnder_widen {patience : Nat} {s : Settings}
    (h : ∀ x ∈ b.runUnder patience s, Inside x.1) :
    (b.widen tail).runUnder patience s =
      (b.runUnder patience s).map (Prod.map id (widen tail)) := by
  have hinside : ∀ x ∈ b.run patience s.stepLimit, Inside x.1 := by
    rintro ⟨r, b'⟩ hx index capacity rfl
    exact h _ (Option.mem_map_of_mem noteAbort hx) index capacity rfl
  rw [runUnder, runUnder, run_widen hinside, Option.map_map, Option.map_map]
  exact congrArg (Option.map · _) (funext noteAbort_widen)

/-- Loading and running is the same on the wider machine, unless memory is left. -/
theorem loadAndRun_widen {patience : Nat} {s : Settings}
    (h : ∀ x ∈ b.loadAndRun patience s, Inside x.1) :
    (b.widen tail).loadAndRun patience s =
      (b.loadAndRun patience s).map (Prod.map id (widen tail)) := by
  rcases hload : b.load with ⟨r, b'⟩
  rw [loadAndRun, hload] at h
  have hinside : Inside b.load.1 := by
    rw [hload]
    rintro index capacity rfl
    exact h _ rfl index capacity rfl
  rw [loadAndRun, loadAndRun, load_widen hinside, hload]
  cases r with
  | error e => rfl
  | ok words => exact runUnder_widen h

end Loading

end Bench

/-! ### Sessions -/

/-- What can be done at a bench. -/
inductive Operation where
  /-- One step. -/
  | step
  /-- A run, with or without a limit. -/
  | run (limit : Option Nat)
  /-- A run under settings, which notes in the log if it fails. -/
  | runUnder (s : Settings)
  /-- Loading a program. -/
  | load
  /-- Loading a program and running it under settings. -/
  | loadAndRun (s : Settings)
deriving DecidableEq, Repr

/-- What an operation that succeeds has to tell. -/
inductive Answer where
  /-- What a step leaves to do. -/
  | status (st : Status)
  /-- The number of words loaded, or of steps taken. -/
  | count (n : Nat)
deriving DecidableEq, Repr

namespace Bench

variable {κ : Type} [FiniteConsole κ]

/-- What an operation comes to, if a run without a limit ends within `patience` steps. -/
def perform (patience : Nat) (b : Bench κ) :
    Operation → Option (Except Failure Answer × Bench κ)
  | .step => some (Prod.map (Except.map .status) id b.step)
  | .run limit => (b.run patience limit).map (Prod.map (Except.map .count) id)
  | .runUnder s => (b.runUnder patience s).map (Prod.map (Except.map .count) id)
  | .load => some (Prod.map (Except.map .count) id b.load)
  | .loadAndRun s => (b.loadAndRun patience s).map (Prod.map (Except.map .count) id)

/-- What operations done one after another come to: the result of each and the bench after it.  If
one of them does not end, the session goes no further. -/
def session (patience : Nat) (b : Bench κ) :
    List Operation → List (Except Failure Answer × Bench κ)
  | [] => []
  | o :: rest =>
    match b.perform patience o with
    | none => []
    | some (r, b') => (r, b') :: session patience b' rest

variable {b : Bench κ} {tail : Array Word} {patience : Nat}

/-- An operation that stays inside memory is the same on the wider machine. -/
theorem perform_widen {o : Operation} (h : ∀ x ∈ b.perform patience o, Inside x.1) :
    (b.widen tail).perform patience o =
      (b.perform patience o).map (Prod.map id (widen tail)) := by
  have hcount : ∀ x : Option (Except Failure Nat × Bench κ),
      (∀ y ∈ x.map (Prod.map (Except.map Answer.count) id), Inside y.1) → ∀ y ∈ x, Inside y.1 := by
    intro x hx y hy
    exact (inside_map_iff Answer.count y.1).mp (hx _ (Option.mem_map_of_mem _ hy))
  cases o with
  | step =>
    have hstep := (inside_map_iff Answer.status b.step.1).mp (h _ rfl)
    rw [perform, step_widen hstep]
    rfl
  | run limit =>
    rw [perform, run_widen (hcount _ h), perform, Option.map_map, Option.map_map]
    rfl
  | runUnder s =>
    rw [perform, runUnder_widen (hcount _ h), perform, Option.map_map, Option.map_map]
    rfl
  | load =>
    have hload := (inside_map_iff Answer.count b.load.1).mp (h _ rfl)
    rw [perform, load_widen hload]
    rfl
  | loadAndRun s =>
    rw [perform, loadAndRun_widen (hcount _ h), perform, Option.map_map, Option.map_map]
    rfl

/-- A session in which no operation fails for a word outside memory is the same on a machine with more
words behind its memory, and the tail stays as it was. -/
theorem session_widen (ops : List Operation) (h : ∀ x ∈ b.session patience ops, Inside x.1) :
    (b.widen tail).session patience ops =
      (b.session patience ops).map (Prod.map id (widen tail)) := by
  induction ops generalizing b with
  | nil => rfl
  | cons o rest ih =>
    have hinside : ∀ x ∈ b.perform patience o, Inside x.1 := by
      intro x hx
      rw [session, Option.mem_def.mp hx] at h
      exact h x List.mem_cons_self
    rw [session, session, perform_widen hinside]
    rw [session] at h
    cases hperform : b.perform patience o with
    | none => rfl
    | some x =>
      rw [hperform] at h
      have hrest := ih fun y hy => h y (List.mem_cons_of_mem x hy)
      exact congrArg _ hrest

/-- A session in which no operation fails for a word outside memory is the same on a machine with a
larger memory that agrees with the smaller one as far as that goes.  At every point the results are
equal, with all that they tell, and so are the console, the log and every part of the machine but for
the memory; this has the words of the smaller memory there, and behind them those of the larger one at
the start.  As these can be any words, nothing ever depends on them. -/
theorem session_of_larger_memory {large : Memory} (ops : List Operation)
    (hsize : b.machine.memory.capacity ≤ large.capacity)
    (hagree : ∀ i : Nat, i < b.machine.memory.capacity →
      large.words[i]? = b.machine.memory.words[i]?)
    (hinside : ∀ x ∈ b.session patience ops, Inside x.1) :
    ({ b with machine := { b.machine with memory := large } } : Bench κ).session patience ops =
      (b.session patience ops).map
        (Prod.map id (widen (large.words.extract b.machine.memory.capacity))) := by
  have hwide : ({ b with machine := { b.machine with memory := large } } : Bench κ) =
      b.widen (large.words.extract b.machine.memory.capacity) := by
    rw [widen, Machine.widen, ← Memory.eq_widen_of_agree hsize hagree]
  rw [hwide]
  exact session_widen ops hinside

/-- A program of three instructions and the zero word fills a memory of four words.  It reads a number
over the zero word, writes it out and halts.  Then a run under a limit of zero is given up, and one
more step executes HALT again.  A memory of six words may have had anything in the last two. -/
theorem session_of_larger_memory_of_six_words :
    let start (memory : Memory) : Bench TokenQueue := {
      machine := { registers := .powerOn, memory }
      console := {
        tokens := ["0011000000000110", "0100000000000110", "1111000000000000", "0", "101"]
        sink := {} } }
    let ops : List Operation := [.load, .step, .run none, .run (some 0), .step]
    let small : Memory := .blank 4
    let large : Memory := ⟨#[0, 0, 0, 0, 0xF000, 0xFFFF]⟩
    ((start small).session 9 ops).map (·.1.toOption) =
      [some (.count 4), some (.status .running), some (.count 2), none, some (.status .halted)] ∧
    (∀ x ∈ (start small).session 9 ops, Inside x.1) ∧
    (start large).session 9 ops =
      ((start small).session 9 ops).map (Prod.map id (widen #[0xF000, 0xFFFF])) := by
  intro start ops small large
  have hinside : ∀ x ∈ (start small).session 9 ops, Inside x.1 := by
    decide +kernel
  have hagree : ∀ i : Nat, i < small.capacity → large.words[i]? = small.words[i]? := by
    decide
  exact ⟨by decide +kernel, hinside,
    session_of_larger_memory ops (by decide) hagree hinside⟩

end Bench

end WordMachine
