import WordMachine.Host.TokenQueue
import WordMachine.Proofs.History
import WordMachine.Proofs.HostFailure

/-!
# The tally accounts for every fetch

An instruction is counted at its fetch, by category, and a jump once more at its end, by outcome.  A
step can fail in between, but no jump does; so whatever a step comes to, the tally has grown by its
fetch and by nothing else (`Machine.Attempts.tally_eq`).  `Tally.withFetches` says what fetches add, in
terms of their numbers alone.

Along steps and runs these numbers add up (`Bench.tally_after`, `Bench.tally_of_run`), and so the
totals close at any time: `Machine.Accounts h` says that the tally of a machine tells what the history
`h` has to tell.  The main statement is `Reached.accounts`.
-/

namespace WordMachine

/-! ### Fetches in a tally -/

namespace Tally

/-- The tally with fetches entered, each by the category of its word, and by outcome if that is a
jump. -/
def withFetches (t : Tally) (fs : List Fetch) : Tally where
  wordsLoaded := t.wordsLoaded
  instructions := t.instructions + fs.length
  data := t.data + fs.countP (·.word.opcode.category = .data)
  io := t.io + fs.countP (·.word.opcode.category = .io)
  arithmetic := t.arithmetic + fs.countP (·.word.opcode.category = .arithmetic)
  jump := t.jump + fs.countP (·.word.opcode.category = .jump)
  other := t.other + fs.countP (·.word.opcode.category = .other)
  jumpsTaken := t.jumpsTaken + fs.countP (·.jumps)
  jumpsNotTaken := t.jumpsNotTaken + fs.countP fun f => f.word.opcode.category = .jump && !f.jumps

theorem count_withFetches (t : Tally) (fs : List Fetch) (c : Category) :
    (t.withFetches fs).count c = t.count c + fs.countP (·.word.opcode.category = c) := by
  cases c <;> rfl

theorem withFetches_append (t : Tally) (fs gs : List Fetch) :
    t.withFetches (fs ++ gs) = (t.withFetches fs).withFetches gs := by
  simp [withFetches, Nat.add_assoc]

/-- The totals of a tally close. -/
structure Balanced (t : Tally) : Prop where
  instructions : t.instructions = t.data + t.io + t.arithmetic + t.jump + t.other
  jumps : t.jumpsTaken + t.jumpsNotTaken = t.jump

/-- A fetch enters each total as often as it enters the counters below it. -/
theorem Balanced.withFetch {t : Tally} (h : t.Balanced) (f : Fetch) :
    (t.withFetches [f]).Balanced := by
  obtain ⟨hinstructions, hjumps⟩ := h
  constructor
  · cases hcategory : f.word.opcode.category <;> simp [withFetches, hcategory] <;> omega
  · cases hf : f.jumps with
    | true =>
      simp [withFetches, hf, Fetch.category_of_jumps hf]
      omega
    | false =>
      simp [withFetches, hf]
      omega

/-- So the totals still close when fetches are entered. -/
theorem Balanced.withFetches {t : Tally} (h : t.Balanced) (fs : List Fetch) :
    (t.withFetches fs).Balanced := by
  induction fs generalizing t with
  | nil => exact h
  | cons f fs ih =>
    rw [← List.singleton_append, withFetches_append]
    exact ih (h.withFetch f)

/-- The counters of a tally are below the bound of all sizes, so sixty-four bits hold each of them. -/
structure Fits (t : Tally) : Prop where
  wordsLoaded : t.wordsLoaded < sizeBound
  instructions : t.instructions < sizeBound
  count : ∀ c, t.count c < sizeBound
  jumpsTaken : t.jumpsTaken < sizeBound
  jumpsNotTaken : t.jumpsNotTaken < sizeBound

/-- If the totals of a tally close, no counter of instructions exceeds their number. -/
theorem Balanced.fits {t : Tally} (h : t.Balanced) (hwords : t.wordsLoaded < sizeBound)
    (hinstructions : t.instructions < sizeBound) : t.Fits := by
  obtain ⟨htotal, hjumps⟩ := h
  refine ⟨hwords, hinstructions, fun c => ?_, ?_, ?_⟩
  · cases c <;> rw [count] <;> omega
  · omega
  · omega

end Tally

/-- A step enters its fetch into the tally, whether it then succeeds or fails. -/
theorem Machine.Attempts.tally_eq {m m' : Machine} {f : Fetch} (h : m.Attempts f m') :
    m'.tally = m.tally.withFetches [f] := by
  rw [h.tally, Tally.record]
  cases hcategory : f.word.opcode.category with
  | jump => cases hf : f.jumps <;> simp [Tally.recordJump, Tally.withFetches, hcategory, hf]
  | data | io | arithmetic | other =>
    have hf : f.jumps = false := by
      refine Bool.eq_false_iff.mpr fun hjumps => ?_
      rw [Fetch.category_of_jumps hjumps] at hcategory
      cases hcategory
    simp [Tally.withFetches, hcategory, hf]

namespace Bench

variable {κ : Type} [Console κ] {b b' : Bench κ}

/-- Steps enter their fetches. -/
theorem tally_after (b : Bench κ) (n : Nat) :
    (b.after n).machine.tally = b.machine.tally.withFetches (b.fetches n) := by
  refine fetches_induct (P := fun fs m => m.tally = b.machine.tally.withFetches fs) rfl ?_ n
  intro fs m f m' hm _ hattempts
  rw [hattempts.tally_eq, hm, Tally.withFetches_append]

/-- So does a run. -/
theorem tally_of_run {patience : Nat} {limit : Option Nat} {r : Except Failure Nat}
    (h : b.run patience limit = some (r, b')) :
    b'.machine.tally = b.machine.tally.withFetches (b.runFetches patience limit) := by
  rw [machine_eq_of_run h]
  exact b.tally_after _

/-! ### What a run adds -/

/-- A run adds the number of steps that it begins, less one when the last could not fetch. -/
theorem instructions_of_run {patience : Nat} {limit : Option Nat} {r : Except Failure Nat}
    (h : b.run patience limit = some (r, b')) :
    b'.machine.tally.instructions = b.machine.tally.instructions +
      let k := b.begun (limit.getD patience)
      if (b.after (k - 1)).machine.nextFetch? = none then k - 1 else k := by
  rw [tally_of_run h]
  exact congrArg _ (b.length_fetches_begun (limit.getD patience))

/-- If the last step of a run could fetch, the run adds the number of its steps. -/
theorem Ends.instructions_of_nextFetch {k patience : Nat} {limit : Option Nat}
    {r : Except Failure Nat} (hends : b.Ends k r b') (hk : k ≤ limit.getD patience)
    (h : b.run patience limit = some (r, b'))
    (hfetch : (b.after (k - 1)).machine.nextFetch? ≠ none) :
    b'.machine.tally.instructions = b.machine.tally.instructions + k := by
  rw [instructions_of_run h, hends.begun_eq hk]
  exact congrArg _ (if_neg hfetch)

/-- A run that halts adds the number that it returns. -/
theorem instructions_of_run_eq_ok {patience n : Nat} {limit : Option Nat}
    (h : b.run patience limit = some (.ok n, b')) :
    b'.machine.tally.instructions = b.machine.tally.instructions + n := by
  rcases run_eq_some_iff.mp h with ⟨_, -, -, hresult, -⟩ | ⟨k, hk, hends⟩
  · cases hresult
  · rw [hends.eq_of_ok]
    refine hends.instructions_of_nextFetch hk h ?_
    cases hends with
    | halted _ hstep => exact nextFetch?_ne_none_of_step_eq_ok (congrArg Prod.fst hstep)

/-- A run that is given up adds as many instructions as its limit allows. -/
theorem instructions_of_run_eq_stepLimitExceeded {patience n : Nat} {limit : Option Nat}
    (h : b.run patience limit = some (.error (.stepLimitExceeded n), b'))
    (hconsole : ∀ i, ¬ Console.Fails (b.after i).console (.stepLimitExceeded n)) :
    b'.machine.tally.instructions = b.machine.tally.instructions + n := by
  rcases run_eq_some_iff.mp h with ⟨limit, rfl, hruns, hresult, rfl⟩ | ⟨k, -, hends⟩
  · cases hresult
    rw [tally_after]
    exact congrArg _ hruns.length_fetches
  · -- a step or the flush would have to report this failure
    cases hends with
    | @unflushed j _ _ _ _ hstep _ hflush =>
      rw [← after_succ_of_step hstep] at hflush
      exact absurd (.flush hflush) (hconsole (j + 1))
    | @failed j _ _ _ hstep =>
      rcases eq_of_step_eq_error (congrArg Prod.fst hstep) with hfails | he | he | ⟨i, -, he, -⟩
      · exact absurd hfails (hconsole j)
      · cases he
      · cases he
      · cases he

end Bench

/-! ### Machines that can be reached -/

/-- The tally of the machine tells what has been done with it. -/
structure Machine.Accounts (h : History) (m : Machine) : Prop where
  /-- The instructions are those of all categories together. -/
  instructions : m.tally.instructions =
    m.tally.data + m.tally.io + m.tally.arithmetic + m.tally.jump + m.tally.other
  /-- The instructions of a category are the words fetched whose operation is in that category. -/
  count : ∀ c, m.tally.count c = h.fetches.countP (·.word.opcode.category = c)
  /-- The jumps are those that were taken and those that were not. -/
  jumps : m.tally.jumpsTaken + m.tally.jumpsNotTaken = m.tally.jump
  /-- The jumps taken are the JMPs and the conditional jumps whose condition held. -/
  jumpsTaken : m.tally.jumpsTaken = h.fetches.countP (·.jumps)
  /-- The words loaded are those of the last program that was loaded. -/
  wordsLoaded : m.tally.wordsLoaded = h.loaded

/-- The tally that a history calls for: that of its fetches. -/
def History.tally (h : History) : Tally :=
  ({ wordsLoaded := h.loaded } : Tally).withFetches h.fetches

theorem History.balanced_tally (h : History) : h.tally.Balanced :=
  Tally.Balanced.withFetches ⟨rfl, rfl⟩ h.fetches

/-- A machine with the tally that its history calls for accounts for it. -/
theorem Machine.accounts_of_tally_eq {h : History} {m : Machine} (hm : m.tally = h.tally) :
    m.Accounts h := by
  have hbalanced := h.balanced_tally
  rw [← hm] at hbalanced
  refine ⟨hbalanced.instructions, fun c => ?_, hbalanced.jumps, ?_, ?_⟩
  · have hzero : ({ wordsLoaded := h.loaded } : Tally).count c = 0 := by
      cases c <;> rfl
    rw [hm, History.tally, Tally.count_withFetches, hzero, Nat.zero_add]
  · rw [hm]
    exact Nat.zero_add _
  · rw [hm]
    rfl

/-- Whatever happens to a machine keeps its tally in step with its history. -/
theorem Machine.kept_tally : Kept fun h m => m.tally = h.tally where
  reset _ := rfl
  memory hm _ := hm
  loaded words hm := by
    rw [hm]
    rfl
  attempt {h m f m'} hm _ hattempts := by
    rw [hattempts.tally_eq, hm, History.tally, History.tally, History.fetched,
      Tally.withFetches_append]

theorem Reached.tally_eq {s : Settings} {history : History} {m : Machine}
    (h : Reached s history m) : m.tally = history.tally :=
  h.of_kept Machine.kept_tally rfl

/-- As long as fewer than `2 ^ 64` words have been fetched, and the last program that was loaded is
shorter than that, sixty-four bits hold every counter. -/
theorem Reached.fits {s : Settings} {history : History} {m : Machine} (h : Reached s history m)
    (hfetches : history.fetches.length < sizeBound) (hloaded : history.loaded < sizeBound) :
    m.tally.Fits := by
  have hinstructions : history.tally.instructions = history.fetches.length := Nat.zero_add _
  rw [h.tally_eq]
  exact history.balanced_tally.fits hloaded (hinstructions ▸ hfetches)

/-- Whatever has been done with a machine since it was switched on, or since it was last reset, with any
consoles and limits and through any failures, its tally tells it: by category the words fetched, the
jumps by outcome, and the length of the last program that was loaded.  A run that halts then adds the
number that it returns, and one that is given up for its limit adds the limit, unless a call on the
console failed in just this way.  In any case a run adds the number of steps that it begins, less one
when the last of them could not fetch. -/
theorem Reached.accounts {s : Settings} {history : History} {m : Machine}
    (h : Reached s history m) :
    m.Accounts history ∧
    ∀ {κ : Type} [Console κ] (b b' : Bench κ) (patience : Nat) (limit : Option Nat)
      (r : Except Failure Nat), b.machine = m → b.run patience limit = some (r, b') →
      (∀ n, r = .ok n → b'.machine.tally.instructions = m.tally.instructions + n) ∧
      (∀ n, r = .error (.stepLimitExceeded n) →
        (∀ i, ¬ Console.Fails (b.after i).console (.stepLimitExceeded n)) →
        b'.machine.tally.instructions = m.tally.instructions + n) ∧
      b'.machine.tally.instructions = m.tally.instructions +
        let k := b.begun (limit.getD patience)
        if (b.after (k - 1)).machine.nextFetch? = none then k - 1 else k := by
  refine ⟨Machine.accounts_of_tally_eq h.tally_eq, ?_⟩
  rintro κ _ b b' patience limit r rfl hrun
  refine ⟨?_, ?_, Bench.instructions_of_run hrun⟩
  · rintro n rfl
    exact Bench.instructions_of_run_eq_ok hrun
  · rintro n rfl
    exact Bench.instructions_of_run_eq_stepLimitExceeded hrun

/-- A program of two instructions and the zero word is loaded into a memory of five words.  Its jump is
taken and leads behind the zero word.  The run begins five steps, and the fifth finds no word to
fetch. -/
theorem Reached.accounts_of_run_behind_last_word :
    let start : Bench TokenQueue := .powerOn { layout := { capacity := 5 } } {
      tokens := ["0001100000000000", "1110000000000110", "0"]
      sink := {} }
    ∃ e b', start.load.2.run 9 none = some (.error e, b') ∧ start.load.2.begun 9 = 5 ∧
      b'.machine.tally.instructions = 4 ∧
      b'.machine.Accounts {
        fetches := [⟨0x1800, 0, 0⟩, ⟨0xE006, 1, 0⟩, ⟨0, 3, 0⟩, ⟨0, 4, 0⟩]
        loaded := 3 } := by
  intro start
  have hfails : (start.load.2.run 9 none).map (·.1.toOption) = some none := by
    decide +kernel
  have hhistory :
      (({} : History).afterLoad start.load.1).fetched (start.load.2.runFetches 9 none) =
        { fetches := [⟨0x1800, 0, 0⟩, ⟨0xE006, 1, 0⟩, ⟨0, 3, 0⟩, ⟨0, 4, 0⟩], loaded := 3 } := by
    decide +kernel
  obtain ⟨⟨r, b'⟩, hrun, hr⟩ := Option.map_eq_some_iff.mp hfails
  cases r with
  | ok n => cases hr
  | error e =>
    have hloaded : Reached _ (({} : History).afterLoad start.load.1) start.load.2.machine :=
      .load .powerOn start.loadWithin_remaining
    have hran := hloaded.run hrun
    rw [hhistory] at hran
    have hadds := ((accounts hloaded).2 start.load.2 b' 9 none (.error e) rfl hrun).2.2
    refine ⟨e, b', hrun, by decide +kernel, ?_, (accounts hran).1⟩
    rw [hadds]
    decide +kernel

end WordMachine
