import WordMachine.Host.TokenQueue
import WordMachine.Proofs.History

/-!
# Where instructions come from

Code and data share one memory, and READ may store into the very program that runs.  But it keeps the
operand field of a token only, and a word that is nothing but an operand field is an END.  So without
STORE nothing that can be executed ever comes from the input.

`Memory.InputOver start m` says that the memory `m` is `start` with operand fields over some of its
words.  A word that differs from the one at the start is therefore below `0x1000`; in particular it is
no STORE, and that is why a step keeps the relation if `start` has no STORE: the word that it executes
is either the original one or does nothing at all.  `Bench.fromStart_of_storeFree` collects what this
says of the machine and of the fetches after any number of steps.
-/

namespace WordMachine

/-! ### Operand fields as words -/

/-- A word below `0x1000` has the operation END. -/
theorem Word.opcode_of_lt {w : Word} (h : w < 0x1000) : w.opcode = .endMark := by
  have hlt : w.toNat < 4096 := UInt16.lt_iff_toNat_lt.mp h
  exact opcode_eq_of_code (Nat.div_eq_of_lt hlt)

/-- So it executes as END. -/
theorem Word.decode_of_lt {w : Word} (h : w < 0x1000) : w.decode = .endMark := by
  rw [decode, opcode_of_lt h]

/-- READ stores operand fields. -/
theorem Machine.inputWord_lt (token : String) : inputWord token < 0x1000 := by
  have hlt : (Word.ofToken token).toNat % 4096 < 4096 := Nat.mod_lt _ (by decide)
  rw [← toNat_inputWord] at hlt
  exact UInt16.lt_iff_toNat_lt.mpr hlt

/-! ### Memories with input in them -/

namespace Memory

/-- No word of the memory is a STORE. -/
def StoreFree (m : Memory) : Prop :=
  ∀ (i : WordIndex) (w : Word), m.words[i]? = some w → w.opcode ≠ .store

/-- `InputOver start m`: the memory `m` is `start` with operand fields over some of its words. -/
structure InputOver (start m : Memory) : Prop where
  capacity : m.capacity = start.capacity
  word : ∀ (i : WordIndex) (w : Word), m.words[i]? = some w →
    start.words[i]? = some w ∨ w < 0x1000

namespace InputOver

variable {start m : Memory}

theorem refl (start : Memory) : InputOver start start where
  capacity := rfl
  word _ _ h := .inl h

/-- A word with an operation is the original one. -/
theorem original {i : WordIndex} {w : Word} (h : InputOver start m) (hw : m.words[i]? = some w)
    (hcode : w.operationCode ≠ 0) : start.words[i]? = some w := by
  rcases h.word i w hw with horiginal | hlt
  · exact horiginal
  · have hzero : w.operationCode = 0 := Nat.div_eq_of_lt (UInt16.lt_iff_toNat_lt.mp hlt)
    exact absurd hzero hcode

/-- No STORE has appeared if there was none. -/
theorem storeFree (h : InputOver start m) (hstart : start.StoreFree) : m.StoreFree := by
  intro i w hw
  rcases h.word i w hw with horiginal | hlt
  · exact hstart i w horiginal
  · rw [Word.opcode_of_lt hlt]
    intro hstore
    cases hstore

/-- One more operand field may be stored. -/
theorem set (h : InputOver start m) (a : WordIndex) {v : Word} (hv : v < 0x1000) :
    InputOver start ⟨m.words.setIfInBounds a v⟩ where
  capacity := by
    have hsize : (m.words.setIfInBounds a v).size = m.words.size := Array.size_setIfInBounds
    exact hsize.trans h.capacity
  word i w hw := by
    have hset : (m.words.setIfInBounds a v)[i]? = some w := hw
    rw [Array.getElem?_setIfInBounds] at hset
    by_cases hai : a = i
    · rw [if_pos hai] at hset
      split at hset
      · cases hset
        exact .inr hv
      · cases hset
    · rw [if_neg hai] at hset
      exact h.word i w hset

end InputOver

end Memory

/-! ### Steps without STORE -/

/-- An instruction that succeeds and is no STORE leaves memory alone or stores an operand field. -/
theorem Machine.Executes.memory_eq_or_set {κ : Type} [Console κ] {m m' : Machine} {k k' : κ}
    {i : Instruction} (h : m.Executes k i m' k') (hstore : i.opcode ≠ .store) :
    m'.memory = m.memory ∨
      ∃ a v, v < 0x1000 ∧ m'.memory = ⟨m.memory.words.setIfInBounds a v⟩ := by
  cases h with
  | store => exact absurd rfl hstore
  | read => exact .inr ⟨_, _, inputWord_lt _, rfl⟩
  | jneg | jzero =>
    left
    rw [jump]
    split <;> rfl
  | _ => exact .inl rfl

namespace Bench

variable {κ : Type} [Console κ] {b b' : Bench κ} {start : Memory}

/-- A step stores nothing but operand fields into a memory without STORE. -/
theorem inputOver_step (h : start.InputOver b.machine.memory) (hstart : start.StoreFree) :
    start.InputOver b.step.2.machine.memory := by
  rcases hstep : b.step with ⟨e | status, c⟩
  · -- what fails stores nothing
    have hmemory : c.machine.memory = b.machine.memory := by
      rcases step_eq_error_iff.mp hstep with ⟨-, -, rfl⟩ | ⟨w, -, -, hmachine, -⟩
      · rfl
      · rw [hmachine]
        rfl
    rw [hmemory]
    exact h
  · obtain ⟨w, hw, hexec, -, -⟩ := step_eq_ok_iff.mp hstep
    have hne : w.decode.opcode ≠ .store := by
      rw [Word.opcode_decode]
      exact h.storeFree hstart _ _ hw
    rcases hexec.memory_eq_or_set hne with hmemory | ⟨a, v, hv, hmemory⟩
    · rw [hmemory]
      exact h
    · rw [hmemory]
      exact h.set a hv

/-- So do any number of steps. -/
theorem inputOver_after (h : b.machine.memory.StoreFree) (n : Nat) :
    b.machine.memory.InputOver (b.after n).machine.memory := by
  induction n with
  | zero => exact .refl _
  | succ n ih => exact inputOver_step ih h

/-- Every fetch of a number of steps is the one with which some step begins. -/
theorem mem_fetches_iff {n : Nat} {f : Fetch} :
    f ∈ b.fetches n ↔ ∃ j < n, (b.after j).machine.nextFetch? = some f := by
  induction n with
  | zero =>
    constructor
    · intro hmem
      cases hmem
    · rintro ⟨j, hj, -⟩
      exact absurd hj (Nat.not_lt_zero j)
  | succ n ih =>
    rw [fetches, List.mem_append, ih, Option.mem_toList]
    constructor
    · rintro (⟨j, hj, hfetch⟩ | hfetch)
      · exact ⟨j, Nat.lt_succ_of_lt hj, hfetch⟩
      · exact ⟨n, Nat.lt_succ_self n, hfetch⟩
    · rintro ⟨j, hj, hfetch⟩
      rcases Nat.lt_succ_iff_lt_or_eq.mp hj with hlt | rfl
      · exact .inl ⟨j, hlt, hfetch⟩
      · exact .inr hfetch

/-- What is known of a machine, and of the fetches that have led there, if its memory was `start` and
had no STORE in it. -/
structure FromStart (start : Memory) (fs : List Fetch) (m : Machine) : Prop where
  capacity : m.memory.capacity = start.capacity
  /-- Every word is the one that was there at the start, or executes as END. -/
  word : ∀ (i : WordIndex) (w : Word), m.memory.words[i]? = some w →
    start.words[i]? = some w ∨ (w < 0x1000 ∧ w.decode = .endMark)
  /-- There is still no STORE. -/
  storeFree : m.memory.StoreFree
  /-- A word that was fetched and has an operation other than END was there at the start. -/
  fetched : ∀ f ∈ fs, f.word.operationCode ≠ 0 → start.words[f.pc]? = some f.word

theorem fromStart_after (h : b.machine.memory.StoreFree) (n : Nat) :
    FromStart b.machine.memory (b.fetches n) (b.after n).machine where
  capacity := (inputOver_after h n).capacity
  word i w hw := by
    refine ((inputOver_after h n).word i w hw).imp_right ?_
    intro hlt
    exact ⟨hlt, Word.decode_of_lt hlt⟩
  storeFree := (inputOver_after h n).storeFree h
  fetched f hf hcode := by
    obtain ⟨j, -, hfetch⟩ := mem_fetches_iff.mp hf
    obtain ⟨w, hw, rfl⟩ := Option.map_eq_some_iff.mp hfetch
    exact (inputOver_after h j).original hw hcode

/-- Input cannot inject instructions.  If no word of memory is a STORE, then whatever the console hands
out, and wherever READ stores it, after any number of steps and after any run every word of memory is
the one that was there at the start or is below `0x1000` and executes as END.  So there still is no
STORE, and every word that was fetched with an operation code other than zero is the original word at
its index. -/
theorem fromStart_of_storeFree (h : b.machine.memory.StoreFree) :
    (∀ n, FromStart b.machine.memory (b.fetches n) (b.after n).machine) ∧
    ∀ patience limit r b', b.run patience limit = some (r, b') →
      FromStart b.machine.memory (b.runFetches patience limit) b'.machine := by
  refine ⟨fromStart_after h, ?_⟩
  intro patience limit r b' hrun
  rw [machine_eq_of_run hrun]
  exact fromStart_after h _

/-- The program reads a token over the word that follows, which is a HALT, and the token spells a STORE.
What is stored of it executes as END, and the run goes on to the second HALT. -/
theorem fromStart_of_storeFree_of_read_code :
    let start : Bench TokenQueue :=
      ⟨{ registers := .powerOn, memory := ⟨#[0x3002, 0xF000, 0xF000]⟩ },
        ⟨["0010000000000001"], {}⟩, #[]⟩
    start.machine.memory.StoreFree ∧
      FromStart start.machine.memory (start.fetches 3) (start.after 3).machine ∧
      (start.after 3).machine.memory = ⟨#[0x3002, 0x0001, 0xF000]⟩ ∧
      (start.fetches 3).map (·.word) = [0x3002, 0x0001, 0xF000] := by
  intro start
  have hfree : start.machine.memory.StoreFree := by
    intro i w hw
    have hall : start.machine.memory.words.all (·.opcode ≠ .store) = true := by decide +kernel
    rw [Array.all_eq_true_iff_forall_mem] at hall
    exact of_decide_eq_true (hall w (Array.mem_of_getElem? hw))
  exact ⟨hfree, (fromStart_of_storeFree hfree).1 3, by decide +kernel, by decide +kernel⟩

end Bench

end WordMachine
