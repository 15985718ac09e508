import WordMachine.Bench.Basic
import WordMachine.Proofs.Number

/-!
# The rules of a step

An instruction whose word has been fetched either succeeds or fails.  Two relations list the rules:
`Machine.Executes` has one rule for each operation and says what machine and what console it leaves
behind; `Machine.Faults` has one rule for each test that an instruction can fail, with the failure
and the console.  The premises of a rule of `Faults` say that the tests before it have passed, so
the rules also fix the order of the tests: a token is asked for before its target is looked at, an
address is looked at before a zero divisor, and memory is read before anything is written out.

The relations are exactly the two outcomes of `Machine.execute`
(`Machine.execute_eq_ok_iff`, `Machine.execute_eq_error_iff`), and a step of a bench is a fetch
followed by one of them (`Bench.step_eq_ok_iff`, `Bench.step_eq_error_iff`).  What a step does is
proved by going through the rules, not by opening the definition of a step.
-/

namespace WordMachine

variable {κ : Type} [Console κ]

/-! ### Operands -/

/-- The word of memory that an instruction takes its value from, stores to or writes out.  READ is
left out, for it looks at its target only after it has a token. -/
def Instruction.cell? : Instruction → Option WordIndex
  | load (.cell a) | add (.cell a) | sub (.cell a) | mul (.cell a) | div (.cell a)
  | mod (.cell a) | store a | write a => some a
  | _ => none

/-- The operand whose value an instruction takes. -/
def Instruction.operand? : Instruction → Option Operand
  | load o | add o | sub o | mul o | div o | mod o => some o
  | _ => none

/-- An instruction takes the value of an operand exactly if its operation has a mode. -/
theorem Word.operand?_decode (w : Word) :
    w.decode.operand? = if w.opcode.hasMode then some w.operand else none := by
  rw [decode]
  cases w.opcode <;> rfl

/-- The word of memory that an instruction reads as data: its value, its divisor or what it writes
out. -/
def Instruction.datum? : Instruction → Option WordIndex
  | load (.cell a) | add (.cell a) | sub (.cell a) | mul (.cell a) | div (.cell a)
  | mod (.cell a) | write a => some a
  | _ => none

/-- The word of memory that an instruction replaces. -/
def Instruction.stored? : Instruction → Option WordIndex
  | store a | read a => some a
  | _ => none

/-- The operand by which an instruction divides. -/
def Instruction.divisor? : Instruction → Option Operand
  | div o | mod o => some o
  | _ => none

namespace Machine

/-- The machine with another word at an index. -/
def putWord (m : Machine) (a : WordIndex) (w : Word) : Machine :=
  { m with memory := ⟨m.memory.words.setIfInBounds a w⟩ }

/-- The word that an operand stands for, if memory has it. -/
def operandWord (m : Machine) : Operand → Option Word
  | .literal w => some w
  | .cell a => m.memory.words[a]?

/-- An operand has a value exactly if it stands for a word. -/
theorem value_eq_ok_iff {m : Machine} {o : Operand} {v : Int32} :
    m.value o = .ok v ↔ ∃ w, m.operandWord o = some w ∧ v = extend w := by
  cases o with
  | literal w => simp [value, operandWord, eq_comm]
  | cell a =>
    rw [value, operandWord]
    cases hr : m.memory.read a with
    | error e =>
      have hnone : m.memory.words[a]? = none :=
        Array.getElem?_eq_none (Memory.read_eq_error_iff.mp hr).1
      simp [hnone, Except.map]
    | ok w =>
      rw [Memory.read_eq_ok_iff.mp hr]
      simp [Except.map, eq_comm]

/-- An operand lacks a value exactly if it lies outside memory; a literal never does. -/
theorem value_eq_error_iff {m : Machine} {o : Operand} {e : Failure} :
    m.value o = .error e ↔
      ∃ a, o = .cell a ∧ m.memory.capacity ≤ a ∧ e = m.memory.outOfBounds a := by
  cases o with
  | literal w => simp [value]
  | cell a =>
    rw [value]
    cases hr : m.memory.read a with
    | error e' =>
      obtain ⟨hle, rfl⟩ := Memory.read_eq_error_iff.mp hr
      simp [hle, Except.map, eq_comm]
    | ok w =>
      have hlt : a < m.memory.capacity :=
        (Array.getElem?_eq_some_iff.mp (Memory.read_eq_ok_iff.mp hr)).1
      simp [Except.map, Nat.not_le.mpr hlt]

/-- A divisor is the value of an operand whose word is not zero. -/
theorem divisor_eq_ok_iff {m : Machine} {o : Operand} {v : Int32} :
    m.divisor o = .ok v ↔ ∃ w, m.operandWord o = some w ∧ w ≠ 0 ∧ v = extend w := by
  rw [divisor]
  cases hv : m.value o with
  | error e =>
    obtain ⟨a, rfl, hle, -⟩ := value_eq_error_iff.mp hv
    have hnone : m.operandWord (.cell a) = none := Array.getElem?_eq_none hle
    simp [hnone]
  | ok x =>
    obtain ⟨w, hw, rfl⟩ := value_eq_ok_iff.mp hv
    by_cases hz : w = 0
    · simp [hw, hz, (extend_eq_zero_iff 0).mpr rfl]
    · have hx : extend w ≠ 0 := fun h => hz ((extend_eq_zero_iff w).mp h)
      simp [hw, hz, hx, eq_comm]

/-- A divisor fails for its address first and then for its value. -/
theorem divisor_eq_error_iff {m : Machine} {o : Operand} {e : Failure} :
    m.divisor o = .error e ↔
      (∃ a, o = .cell a ∧ m.memory.capacity ≤ a ∧ e = m.memory.outOfBounds a) ∨
        (m.operandWord o = some 0 ∧ e = .divisionByZero m.pc) := by
  rw [divisor]
  cases hv : m.value o with
  | error e' =>
    obtain ⟨a, rfl, hle, rfl⟩ := value_eq_error_iff.mp hv
    have hnone : m.operandWord (.cell a) = none := Array.getElem?_eq_none hle
    simp [hnone, hle, eq_comm]
  | ok x =>
    obtain ⟨w, hw, rfl⟩ := value_eq_ok_iff.mp hv
    have hin : ¬ ∃ a, o = .cell a ∧ m.memory.capacity ≤ a ∧ e = m.memory.outOfBounds a := by
      intro h
      have herr := value_eq_error_iff.mpr h
      rw [hv] at herr
      cases herr
    by_cases hz : w = 0
    · simp [hin, hw, hz, (extend_eq_zero_iff 0).mpr rfl, eq_comm]
    · have hx : extend w ≠ 0 := fun h => hz ((extend_eq_zero_iff w).mp h)
      simp [hin, hw, hz, hx]

/-! ### Executing -/

/-- `m.Executes k i m' k'`: on the machine `m` with the console `k` the instruction `i` succeeds and
leaves the machine `m'` and the console `k'`. -/
inductive Executes (m : Machine) (k : κ) : Instruction → Machine → κ → Prop where
  | endMark : Executes m k .endMark m.advancePc k
  | nop : Executes m k .nop m.advancePc k
  | load {o w} (value : m.operandWord o = some w) :
      Executes m k (.load o) (m.setAccumulator (extend w)).advancePc k
  | store {a} (inside : a < m.memory.capacity) :
      Executes m k (.store a) (m.putWord a (truncate m.accumulator)).advancePc k
  | read {a token k'} (taken : Console.readToken k = (.ok (some token), k'))
      (inside : a < m.memory.capacity) :
      Executes m k (.read a) (m.putWord a (inputWord token)).advancePc k'
  | write {a w k'} (word : m.memory.words[a]? = some w)
      (written : Console.writeValue k w = (.ok (), k')) :
      Executes m k (.write a) m.advancePc k'
  | add {o w} (value : m.operandWord o = some w) :
      Executes m k (.add o) (m.setAccumulator (m.accumulator + extend w)).advancePc k
  | sub {o w} (value : m.operandWord o = some w) :
      Executes m k (.sub o) (m.setAccumulator (m.accumulator - extend w)).advancePc k
  | mul {o w} (value : m.operandWord o = some w) :
      Executes m k (.mul o) (m.setAccumulator (m.accumulator * extend w)).advancePc k
  | div {o w} (value : m.operandWord o = some w) (nonzero : w ≠ 0) :
      Executes m k (.div o) (m.setAccumulator (m.accumulator / extend w)).advancePc k
  | mod {o w} (value : m.operandWord o = some w) (nonzero : w ≠ 0) :
      Executes m k (.mod o) (m.setAccumulator (m.accumulator % extend w)).advancePc k
  | neg : Executes m k .neg (m.setAccumulator (-m.accumulator)).advancePc k
  | jmp {a} : Executes m k (.jmp a) (m.jump true a) k
  | jneg {a} : Executes m k (.jneg a) (m.jump (m.accumulator < 0) a) k
  | jzero {a} : Executes m k (.jzero a) (m.jump (m.accumulator = 0) a) k
  | halt : Executes m k .halt { m with halted := true } k

/-- `m.Faults k i e k'`: on the machine `m` with the console `k` the instruction `i` fails with `e`
and leaves the console `k'`. -/
inductive Faults (m : Machine) (k : κ) : Instruction → Failure → κ → Prop where
  /-- The console cannot serve the token that READ asks for. -/
  | request {a e k'} (failed : Console.readToken k = (.error e, k')) : Faults m k (.read a) e k'
  /-- READ finds no token left. -/
  | exhausted {a k'} (ended : Console.readToken k = (.ok none, k')) :
      Faults m k (.read a) (.inputExhausted m.pc) k'
  /-- READ has a token and its target lies outside memory. -/
  | target {a token k'} (taken : Console.readToken k = (.ok (some token), k'))
      (outside : m.memory.capacity ≤ a) : Faults m k (.read a) (m.memory.outOfBounds a) k'
  /-- The word that another instruction works with lies outside memory. -/
  | cell {i a} (uses : i.cell? = some a) (outside : m.memory.capacity ≤ a) :
      Faults m k i (m.memory.outOfBounds a) k
  /-- The divisor has a value, which is zero. -/
  | zero {i o} (divides : i.divisor? = some o) (value : m.operandWord o = some 0) :
      Faults m k i (.divisionByZero m.pc) k
  /-- WRITE has a word, which the console cannot take. -/
  | emission {a w e k'} (word : m.memory.words[a]? = some w)
      (failed : Console.writeValue k w = (.error e, k')) : Faults m k (.write a) e k'

/-! ### The rules are the outcomes -/

/-- An outcome of an instruction that follows the rules. -/
def Obeys (m : Machine) (k : κ) (i : Instruction) : Except Failure Machine × κ → Prop
  | (.ok m', k') => m.Executes k i m' k'
  | (.error e, k') => m.Faults k i e k'

/-- An instruction that computes from the value of an operand follows the rules if its rule is the
one for that value. -/
theorem obeys_compute_value {m : Machine} {k : κ} {i : Instruction} {o : Operand}
    {f : Int32 → Int32 → Int32} (hcell : ∀ a, o = .cell a → i.cell? = some a)
    (hrule : ∀ w, m.operandWord o = some w →
      m.Executes k i (m.setAccumulator (f m.accumulator (extend w))).advancePc k) :
    m.Obeys k i (m.compute (m.value o) f, k) := by
  cases hv : m.value o with
  | error e =>
    obtain ⟨a, ho, hle, rfl⟩ := value_eq_error_iff.mp hv
    exact .cell (hcell a ho) hle
  | ok x =>
    obtain ⟨w, hw, rfl⟩ := value_eq_ok_iff.mp hv
    exact hrule w hw

/-- The same for an instruction that divides. -/
theorem obeys_compute_divisor {m : Machine} {k : κ} {i : Instruction} {o : Operand}
    {f : Int32 → Int32 → Int32} (hdivisor : i.divisor? = some o)
    (hcell : ∀ a, o = .cell a → i.cell? = some a)
    (hrule : ∀ w, m.operandWord o = some w → w ≠ 0 →
      m.Executes k i (m.setAccumulator (f m.accumulator (extend w))).advancePc k) :
    m.Obeys k i (m.compute (m.divisor o) f, k) := by
  cases hv : m.divisor o with
  | error e =>
    rcases divisor_eq_error_iff.mp hv with ⟨a, ho, hle, rfl⟩ | ⟨hz, rfl⟩
    · exact .cell (hcell a ho) hle
    · exact .zero hdivisor hz
  | ok x =>
    obtain ⟨w, hw, hne, rfl⟩ := divisor_eq_ok_iff.mp hv
    exact hrule w hw hne

/-- READ follows the rules. -/
theorem obeys_executeRead (m : Machine) (k : κ) (a : WordIndex) :
    m.Obeys k (.read a) (m.executeRead k a) := by
  rw [executeRead]
  rcases hr : Console.readToken k with ⟨_ | _ | token, k'⟩
  · exact .request hr
  · exact .exhausted hr
  · rcases Nat.lt_or_ge a m.memory.capacity with hlt | hge
    · simp only [storeWord, Memory.write_of_lt hlt]
      exact .read hr hlt
    · simp only [storeWord, Memory.write_of_le hge]
      exact .target hr hge

/-- WRITE follows the rules. -/
theorem obeys_executeWrite (m : Machine) (k : κ) (a : WordIndex) :
    m.Obeys k (.write a) (m.executeWrite k a) := by
  rw [executeWrite]
  cases hr : m.memory.read a with
  | error e =>
    obtain ⟨hle, rfl⟩ := Memory.read_eq_error_iff.mp hr
    exact .cell rfl hle
  | ok w =>
    have hw : m.memory.words[a]? = some w := Memory.read_eq_ok_iff.mp hr
    rcases hwr : Console.writeValue k w with ⟨_ | _, k'⟩
    · simp only [hwr]
      exact .emission hw hwr
    · simp only [hwr]
      exact .write hw hwr

/-- Every instruction follows the rules. -/
theorem obeys_execute (m : Machine) (k : κ) (i : Instruction) : m.Obeys k i (m.execute k i) := by
  cases i with
  | endMark => exact .endMark
  | nop => exact .nop
  | load o => exact obeys_compute_value (fun a h => by rw [h]; rfl) fun w hw => .load hw
  | store a =>
    rw [execute]
    rcases Nat.lt_or_ge a m.memory.capacity with hlt | hge
    · simp only [storeWord, Memory.write_of_lt hlt]
      exact .store hlt
    · simp only [storeWord, Memory.write_of_le hge]
      exact .cell rfl hge
  | read a => exact obeys_executeRead m k a
  | write a => exact obeys_executeWrite m k a
  | add o => exact obeys_compute_value (fun a h => by rw [h]; rfl) fun w hw => .add hw
  | sub o => exact obeys_compute_value (fun a h => by rw [h]; rfl) fun w hw => .sub hw
  | mul o => exact obeys_compute_value (fun a h => by rw [h]; rfl) fun w hw => .mul hw
  | div o => exact obeys_compute_divisor rfl (fun a h => by rw [h]; rfl) fun w hw hz => .div hw hz
  | mod o => exact obeys_compute_divisor rfl (fun a h => by rw [h]; rfl) fun w hw hz => .mod hw hz
  | neg => exact .neg
  | jmp a => exact .jmp
  | jneg a => exact .jneg
  | jzero a => exact .jzero
  | halt => exact .halt

/-- What a rule for success says is what the instruction does. -/
theorem Executes.execute_eq {m m' : Machine} {k k' : κ} {i : Instruction}
    (h : m.Executes k i m' k') : m.execute k i = (.ok m', k') := by
  cases h with
  | load hw | add hw | sub hw | mul hw =>
    rw [execute, value_eq_ok_iff.mpr ⟨_, hw, rfl⟩]
    rfl
  | div hw hz | mod hw hz =>
    rw [execute, divisor_eq_ok_iff.mpr ⟨_, hw, hz, rfl⟩]
    rfl
  | store hlt =>
    rw [execute, storeWord, Memory.write_of_lt hlt]
    rfl
  | read hr hlt =>
    rw [execute, executeRead, hr]
    simp only [storeWord, Memory.write_of_lt hlt]
    rfl
  | write hw hwr =>
    rw [execute, executeWrite, Memory.read_eq_ok_iff.mpr hw]
    simp only [hwr]
  | endMark | nop | neg | jmp | jneg | jzero | halt => rfl

/-- What a rule for failure says is what the instruction does. -/
theorem Faults.execute_eq {m : Machine} {k k' : κ} {i : Instruction} {e : Failure}
    (h : m.Faults k i e k') : m.execute k i = (.error e, k') := by
  cases h with
  | request hr | exhausted hr => rw [execute, executeRead, hr]
  | target hr hge =>
    rw [execute, executeRead, hr]
    simp only [storeWord, Memory.write_of_le hge]
    rfl
  | cell huses hge =>
    -- only an instruction that names a cell is left
    cases i with
    | load o | add o | sub o | mul o =>
      cases o with
      | literal w => cases huses
      | cell b =>
        cases huses
        rw [execute, value_eq_error_iff.mpr ⟨_, rfl, hge, rfl⟩]
        rfl
    | div o | mod o =>
      cases o with
      | literal w => cases huses
      | cell b =>
        cases huses
        rw [execute, divisor_eq_error_iff.mpr (.inl ⟨_, rfl, hge, rfl⟩)]
        rfl
    | store b =>
      cases huses
      rw [execute, storeWord, Memory.write_of_le hge]
      rfl
    | write b =>
      cases huses
      rw [execute, executeWrite, Memory.read_of_le hge]
    | endMark | read | neg | nop | jmp | jneg | jzero | halt => cases huses
  | zero hdivides hz =>
    cases i with
    | div o | mod o =>
      cases hdivides
      rw [execute, divisor_eq_error_iff.mpr (.inr ⟨hz, rfl⟩)]
      rfl
    | _ => cases hdivides
  | emission hw hwr =>
    rw [execute, executeWrite, Memory.read_eq_ok_iff.mpr hw]
    simp only [hwr]

/-- An instruction succeeds exactly by a rule for success. -/
theorem execute_eq_ok_iff {m m' : Machine} {k k' : κ} {i : Instruction} :
    m.execute k i = (.ok m', k') ↔ m.Executes k i m' k' := by
  refine ⟨fun h => ?_, Executes.execute_eq⟩
  have hobeys := obeys_execute m k i
  rw [h] at hobeys
  exact hobeys

/-- An instruction fails exactly by a rule for failure. -/
theorem execute_eq_error_iff {m : Machine} {k k' : κ} {i : Instruction} {e : Failure} :
    m.execute k i = (.error e, k') ↔ m.Faults k i e k' := by
  refine ⟨fun h => ?_, Faults.execute_eq⟩
  have hobeys := obeys_execute m k i
  rw [h] at hobeys
  exact hobeys

end Machine

/-! ### Steps -/

namespace Bench

/-- A step that finds no word to fetch leaves everything as it was. -/
theorem step_of_le {b : Bench κ} (h : b.machine.memory.capacity ≤ b.machine.pc) :
    b.step = (.error (b.machine.memory.outOfBounds b.machine.pc), b) := by
  rw [step, Memory.read_of_le h]

/-- A step that finds a word fetches it and executes it. -/
theorem step_of_fetch {b : Bench κ} {w : Word}
    (h : b.machine.memory.words[b.machine.pc]? = some w) :
    b.step =
      match (b.machine.fetch w).execute b.console w.decode with
      | (.error e, k) => (.error e, ⟨b.machine.fetch w, k, noteFetch b.log (b.machine.fetch w) w⟩)
      | (.ok m, k) =>
        (.ok (Machine.statusAfter w.decode), ⟨m, k, noteFetch b.log (b.machine.fetch w) w⟩) := by
  have hread : b.machine.memory.read b.machine.pc = .ok w := Memory.read_eq_ok_iff.mpr h
  rcases hexec : (b.machine.fetch w).execute b.console w.decode with ⟨_ | m, k⟩
  · simp only [step, hread, hexec]
  · simp only [step, hread, hexec]

/-- A step succeeds exactly when there is a word to fetch and a rule by which it succeeds. -/
theorem step_eq_ok_iff {b b' : Bench κ} {st : Status} :
    b.step = (.ok st, b') ↔
      ∃ w, b.machine.memory.words[b.machine.pc]? = some w ∧
        (b.machine.fetch w).Executes b.console w.decode b'.machine b'.console ∧
        st = Machine.statusAfter w.decode ∧
        b'.log = noteFetch b.log (b.machine.fetch w) w := by
  constructor
  · intro h
    cases hw : b.machine.memory.words[b.machine.pc]? with
    | none =>
      rw [step_of_le (Array.getElem?_eq_none_iff.mp hw)] at h
      cases h
    | some w =>
      rw [step_of_fetch hw] at h
      refine ⟨w, rfl, ?_⟩
      rcases he : (b.machine.fetch w).execute b.console w.decode with ⟨_ | m, k⟩
      · rw [he] at h
        cases h
      · rw [he] at h
        cases h
        exact ⟨Machine.execute_eq_ok_iff.mp he, rfl, rfl⟩
  · rintro ⟨w, hw, hexec, rfl, hlog⟩
    rw [step_of_fetch hw, hexec.execute_eq, ← hlog]

/-- A step fails exactly when there is no word to fetch, or a rule by which it fails. -/
theorem step_eq_error_iff {b b' : Bench κ} {e : Failure} :
    b.step = (.error e, b') ↔
      (b.machine.memory.capacity ≤ b.machine.pc ∧
        e = b.machine.memory.outOfBounds b.machine.pc ∧ b' = b) ∨
      ∃ w, b.machine.memory.words[b.machine.pc]? = some w ∧
        (b.machine.fetch w).Faults b.console w.decode e b'.console ∧
        b'.machine = b.machine.fetch w ∧
        b'.log = noteFetch b.log (b.machine.fetch w) w := by
  constructor
  · intro h
    cases hw : b.machine.memory.words[b.machine.pc]? with
    | none =>
      have hle : b.machine.memory.capacity ≤ b.machine.pc := Array.getElem?_eq_none_iff.mp hw
      rw [step_of_le hle] at h
      cases h
      exact .inl ⟨hle, rfl, rfl⟩
    | some w =>
      rw [step_of_fetch hw] at h
      refine .inr ⟨w, rfl, ?_⟩
      rcases he : (b.machine.fetch w).execute b.console w.decode with ⟨_ | m, k⟩
      · rw [he] at h
        cases h
        exact ⟨Machine.execute_eq_error_iff.mp he, rfl, rfl⟩
      · rw [he] at h
        cases h
  · rintro (⟨hle, rfl, rfl⟩ | ⟨w, hw, hfault, hmachine, hlog⟩)
    · exact step_of_le hle
    · rw [step_of_fetch hw, hfault.execute_eq, ← hlog, ← hmachine]

end Bench

end WordMachine
