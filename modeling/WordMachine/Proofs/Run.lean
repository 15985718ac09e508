import WordMachine.Proofs.Step

/-!
# Runs as iterated steps

A run takes steps one after another until one of them does not go on, and a limit cuts it off after
so many steps.  Here the steps come first: `Bench.after b n` is the bench after `n` steps, taken
whatever they come to, `Bench.RunsFor b n` says that each of the first `n` steps goes on, and
`Bench.Ends b k r b'` says that step number `k` is the first that does not, and what the run comes
to by it: after HALT the console is flushed, once; after a failure nothing more is done.

The main statement, `Bench.run_eq_iterated_steps`, says that these decide every run.  A run with a
limit `L` is given up exactly if the first `L` steps go on, and otherwise ends as the steps end.  So
the limit does not show in a run that ends, and the least limit under which a program halts is the
number of its steps, HALT included.
-/

namespace WordMachine

variable {κ : Type} [Console κ]

/-- The instruction after which nothing is left to do marks the machine as halted. -/
theorem Machine.Executes.halted_of_statusAfter {m m' : Machine} {k k' : κ} {i : Instruction}
    (h : m.Executes k i m' k') (hstatus : statusAfter i = .halted) : m'.halted = true := by
  cases h with
  | halt => rfl
  | _ => cases hstatus

namespace Bench

variable {b b' : Bench κ}

/-! ### Iterated steps -/

/-- The bench after `n` steps, whatever they come to. -/
def after (b : Bench κ) : Nat → Bench κ
  | 0 => b
  | n + 1 => (b.after n).step.2

/-- Each of the first `n` steps goes on. -/
def RunsFor (b : Bench κ) (n : Nat) : Prop :=
  ∀ i < n, (b.after i).step.1 = .ok .running

/-- `b.Ends k r b'`: step number `k`, counted from one, is the first that does not go on, and the
run comes to the result `r` and leaves the bench `b'`. -/
inductive Ends (b : Bench κ) : Nat → Except Failure Nat → Bench κ → Prop where
  /-- The step executed HALT, and the console could be flushed. -/
  | halted {j c k} (runs : b.RunsFor j) (step : (b.after j).step = (.ok .halted, c))
      (flag : c.machine.halted = true) (flush : Console.flush c.console = (.ok (), k)) :
      Ends b (j + 1) (.ok (j + 1))
        ⟨c.machine, k, c.log.push (.halted (j + 1) c.machine.pc c.machine.accumulator)⟩
  /-- The step executed HALT, and the console could not be flushed. -/
  | unflushed {j c k e} (runs : b.RunsFor j) (step : (b.after j).step = (.ok .halted, c))
      (flag : c.machine.halted = true) (flush : Console.flush c.console = (.error e, k)) :
      Ends b (j + 1) (.error e) ⟨c.machine, k, c.log⟩
  /-- The step failed. -/
  | failed {j c e} (runs : b.RunsFor j) (step : (b.after j).step = (.error e, c)) :
      Ends b (j + 1) (.error e) c

/-- The first of many steps may as well be taken beforehand. -/
theorem after_succ (b : Bench κ) (n : Nat) : b.after (n + 1) = b.step.2.after n := by
  induction n with
  | zero => rfl
  | succ n ih =>
    rw [after, ih]
    rfl

/-- A step leads on to the bench that it leaves behind. -/
theorem after_succ_of_step {j : Nat} {r : Except Failure Status} (h : (b.after j).step = (r, b')) :
    b.after (j + 1) = b' :=
  congrArg Prod.snd h

theorem runsFor_zero (b : Bench κ) : b.RunsFor 0 := by
  intro i hi
  exact absurd hi (Nat.not_lt_zero i)

/-- A bench runs for one more step if it does so from the bench after the first. -/
theorem runsFor_succ_iff {n : Nat} :
    b.RunsFor (n + 1) ↔ b.step.1 = .ok .running ∧ b.step.2.RunsFor n := by
  constructor
  · intro h
    refine ⟨h 0 (Nat.succ_pos n), fun i hi => ?_⟩
    rw [← after_succ]
    exact h (i + 1) (Nat.succ_lt_succ hi)
  · rintro ⟨hfirst, hrest⟩ i hi
    cases i with
    | zero => exact hfirst
    | succ i =>
      rw [after_succ]
      exact hrest i (Nat.lt_of_succ_lt_succ hi)

/-- A bench that runs for some steps runs for fewer. -/
theorem RunsFor.of_le {m n : Nat} (h : b.RunsFor n) (hle : m ≤ n) : b.RunsFor m := by
  intro i hi
  exact h i (Nat.lt_of_lt_of_le hi hle)

/-- Either the first `n` steps go on, or one of them is the first that does not. -/
theorem runsFor_or_stops (b : Bench κ) (n : Nat) :
    b.RunsFor n ∨ ∃ j < n, b.RunsFor j ∧ (b.after j).step.1 ≠ .ok .running := by
  induction n with
  | zero => exact .inl b.runsFor_zero
  | succ n ih =>
    rcases ih with hruns | ⟨j, hj, hruns, hstop⟩
    · by_cases hn : (b.after n).step.1 = .ok .running
      · left
        intro i hi
        rcases Nat.lt_succ_iff_lt_or_eq.mp hi with hlt | rfl
        · exact hruns i hlt
        · exact hn
      · exact .inr ⟨n, Nat.lt_succ_self n, hruns, hn⟩
    · exact .inr ⟨j, Nat.lt_succ_of_lt hj, hruns, hstop⟩

/-! ### Advancing -/

/-- Steps that go on are passed over. -/
theorem advance_add_of_runsFor {n : Nat} (h : b.RunsFor n) (taken m : Nat) :
    b.advance taken (n + m) = (b.after n).advance (taken + n) m := by
  induction n generalizing b taken with
  | zero => rw [Nat.zero_add, Nat.add_zero, after]
  | succ n ih =>
    obtain ⟨hfirst, hrest⟩ := runsFor_succ_iff.mp h
    have hstep : b.step = (.ok .running, b.step.2) := Prod.ext hfirst rfl
    rw [Nat.succ_add, advance, hstep]
    rw [after_succ, ← Nat.add_assoc, Nat.add_right_comm]
    exact ih hrest (taken + 1)

/-- A step that halts is the last. -/
theorem advance_succ_of_halted {c : Bench κ} (h : b.step = (.ok .halted, c)) (taken n : Nat) :
    b.advance taken (n + 1) = (.halted (taken + 1), c) := by
  rw [advance, h]

/-- A step that fails is the last. -/
theorem advance_succ_of_failed {c : Bench κ} {e : Failure} (h : b.step = (.error e, c))
    (taken n : Nat) : b.advance taken (n + 1) = (.failed e, c) := by
  rw [advance, h]

/-- As long as every step goes on, the run is still going. -/
theorem advance_of_runsFor {n : Nat} (h : b.RunsFor n) :
    b.advance 0 n = (.running, b.after n) := by
  have hadd := advance_add_of_runsFor h 0 0
  rw [Nat.add_zero] at hadd
  rw [hadd]
  rfl

/-- Steps after the first that does not go on are not taken. -/
theorem advance_of_stop {j n : Nat} (h : b.RunsFor j) (hj : j < n) :
    b.advance 0 n = (b.after j).advance j (n - (j + 1) + 1) := by
  have hn : n = j + (n - (j + 1) + 1) := by omega
  have hadd := advance_add_of_runsFor h 0 (n - (j + 1) + 1)
  rw [← hn, Nat.zero_add] at hadd
  exact hadd

/-- The machine is marked as halted by the step that executes HALT. -/
theorem halted_of_step_eq_halted {c : Bench κ} (h : b.step = (.ok .halted, c)) :
    c.machine.halted = true := by
  obtain ⟨w, _, hexec, hstatus, _⟩ := step_eq_ok_iff.mp h
  exact hexec.halted_of_statusAfter hstatus.symm

/-! ### Ends of runs -/

/-- If some step does not go on, a run comes to something by the first such step. -/
theorem exists_ends_of_stop {j : Nat} (hruns : b.RunsFor j)
    (hstop : (b.after j).step.1 ≠ .ok .running) : ∃ r b', b.Ends (j + 1) r b' := by
  rcases hstep : (b.after j).step with ⟨e | _ | _, c⟩
  · exact ⟨_, _, .failed hruns hstep⟩
  · rw [hstep] at hstop
    exact absurd rfl hstop
  · have hflag := halted_of_step_eq_halted hstep
    rcases hflush : Console.flush c.console with ⟨e | _, k⟩
    · exact ⟨_, _, .unflushed hruns hstep hflag hflush⟩
    · exact ⟨_, _, .halted hruns hstep hflag hflush⟩

/-- A run goes on for any number of steps, or ends within them. -/
theorem runsFor_or_ends (b : Bench κ) (n : Nat) :
    b.RunsFor n ∨ ∃ k ≤ n, ∃ r b', b.Ends k r b' := by
  rcases b.runsFor_or_stops n with hruns | ⟨j, hj, hruns, hstop⟩
  · exact .inl hruns
  · exact .inr ⟨j + 1, hj, exists_ends_of_stop hruns hstop⟩

/-- All steps before the one that ends a run go on. -/
theorem Ends.runsFor_of_lt {k n : Nat} {r : Except Failure Nat} (h : b.Ends k r b')
    (hn : n < k) : b.RunsFor n := by
  cases h with
  | halted hruns => exact hruns.of_le (Nat.le_of_lt_succ hn)
  | unflushed hruns => exact hruns.of_le (Nat.le_of_lt_succ hn)
  | failed hruns => exact hruns.of_le (Nat.le_of_lt_succ hn)

/-- An observer with enough patience sees what a run comes to, the console flushed if it halts. -/
theorem Ends.advance_eq {k n : Nat} {r : Except Failure Nat} (h : b.Ends k r b') (hk : k ≤ n) :
    (∃ c, b.advance 0 n = (.halted k, c) ∧ c.finish k = (r, b')) ∨
      ∃ e, b.advance 0 n = (.failed e, b') ∧ r = .error e := by
  cases h with
  | @halted j c _ hruns hstep _ hflush =>
    left
    refine ⟨c, ?_, ?_⟩
    · rw [advance_of_stop hruns hk, advance_succ_of_halted hstep]
    · rw [finish, hflush]
      rfl
  | @unflushed j c _ _ hruns hstep _ hflush =>
    left
    refine ⟨c, ?_, ?_⟩
    · rw [advance_of_stop hruns hk, advance_succ_of_halted hstep]
    · rw [finish, hflush]
  | @failed j _ e hruns hstep =>
    right
    refine ⟨e, ?_, rfl⟩
    rw [advance_of_stop hruns hk, advance_succ_of_failed hstep]

/-- A run with a limit that its end does not exceed comes to that end. -/
theorem Ends.runWithin_eq {k limit : Nat} {r : Except Failure Nat} (h : b.Ends k r b')
    (hk : k ≤ limit) : b.runWithin limit = (r, b') := by
  rcases h.advance_eq hk with ⟨c, hadvance, hfinish⟩ | ⟨e, hadvance, rfl⟩
  · rw [runWithin, hadvance]
    exact hfinish
  · rw [runWithin, hadvance]

/-- A run without a limit comes to its end. -/
theorem Ends.runObserved_eq {k patience : Nat} {r : Except Failure Nat} (h : b.Ends k r b')
    (hk : k ≤ patience) : b.runObserved patience = some (r, b') := by
  rcases h.advance_eq hk with ⟨c, hadvance, hfinish⟩ | ⟨e, hadvance, rfl⟩
  · rw [runObserved, hadvance, ← hfinish]
  · rw [runObserved, hadvance]

/-- A run whose limit is used up is given up where it stands. -/
theorem runWithin_of_runsFor {limit : Nat} (h : b.RunsFor limit) :
    b.runWithin limit = (.error (.stepLimitExceeded limit), b.after limit) := by
  rw [runWithin, advance_of_runsFor h]

/-- Without a limit nothing is known of a run that is still going. -/
theorem runObserved_of_runsFor {patience : Nat} (h : b.RunsFor patience) :
    b.runObserved patience = none := by
  rw [runObserved, advance_of_runsFor h]

/-- What a run with a limit comes to, told by its steps. -/
theorem runWithin_eq_iff {limit : Nat} {r : Except Failure Nat} :
    b.runWithin limit = (r, b') ↔
      (b.RunsFor limit ∧ r = .error (.stepLimitExceeded limit) ∧ b' = b.after limit) ∨
        ∃ k ≤ limit, b.Ends k r b' := by
  constructor
  · intro h
    rcases b.runsFor_or_ends limit with hruns | ⟨k, hk, r₀, b₀, hends⟩
    · rw [runWithin_of_runsFor hruns] at h
      cases h
      exact .inl ⟨hruns, rfl, rfl⟩
    · rw [hends.runWithin_eq hk] at h
      cases h
      exact .inr ⟨k, hk, hends⟩
  · rintro (⟨hruns, rfl, rfl⟩ | ⟨k, hk, hends⟩)
    · exact runWithin_of_runsFor hruns
    · exact hends.runWithin_eq hk

/-- What a run without a limit comes to, told by its steps. -/
theorem runObserved_eq_some_iff {patience : Nat} {r : Except Failure Nat} :
    b.runObserved patience = some (r, b') ↔ ∃ k ≤ patience, b.Ends k r b' := by
  constructor
  · intro h
    rcases b.runsFor_or_ends patience with hruns | ⟨k, hk, r₀, b₀, hends⟩
    · rw [runObserved_of_runsFor hruns] at h
      cases h
    · rw [hends.runObserved_eq hk] at h
      cases h
      exact ⟨k, hk, hends⟩
  · rintro ⟨k, hk, hends⟩
    exact hends.runObserved_eq hk

/-- A run comes to nothing else than that its limit is used up, or that its steps end. -/
theorem run_eq_some_iff {patience : Nat} {limit : Option Nat} {r : Except Failure Nat} :
    b.run patience limit = some (r, b') ↔
      (∃ n, limit = some n ∧ b.RunsFor n ∧ r = .error (.stepLimitExceeded n) ∧ b' = b.after n) ∨
        ∃ k ≤ limit.getD patience, b.Ends k r b' := by
  cases limit with
  | some n =>
    rw [run, Option.some_inj, runWithin_eq_iff, Option.getD_some]
    refine or_congr_left ⟨fun h => ⟨n, rfl, h⟩, ?_⟩
    rintro ⟨_, hn, h⟩
    cases hn
    exact h
  | none =>
    rw [run, runObserved_eq_some_iff]
    refine ⟨.inr, ?_⟩
    rintro (⟨n, hn, -⟩ | h)
    · cases hn
    · exact h

/-- A run that ends leaves the machine of its last step behind.  The console may have been flushed
after that step. -/
theorem Ends.last_step {k : Nat} {r : Except Failure Nat} (h : b.Ends k r b') :
    b'.machine = (b.after k).machine ∧
      (b'.console = (b.after k).console ∨ b'.console = (Console.flush (b.after k).console).2) := by
  cases h with
  | halted _ hstep _ hflush | unflushed _ hstep _ hflush =>
    rw [after_succ_of_step hstep, hflush]
    exact ⟨rfl, .inr rfl⟩
  | failed _ hstep =>
    rw [after_succ_of_step hstep]
    exact ⟨rfl, .inl rfl⟩

/-- Whatever a run comes to, it stands where some number of steps leads, all of which but the last
went on. -/
theorem run_eq_some_last_step {patience : Nat} {limit : Option Nat}
    {r : Except Failure Nat} (h : b.run patience limit = some (r, b')) :
    ∃ j, b.RunsFor (j - 1) ∧ b'.machine = (b.after j).machine ∧
      (b'.console = (b.after j).console ∨ b'.console = (Console.flush (b.after j).console).2) := by
  rcases run_eq_some_iff.mp h with ⟨n, -, hruns, -, rfl⟩ | ⟨k, -, hends⟩
  · exact ⟨n, hruns.of_le (Nat.sub_le n 1), rfl, .inl rfl⟩
  · refine ⟨k, ?_, hends.last_step⟩
    cases hends with
    | halted hruns | unflushed hruns | failed hruns => exact hruns

/-- The limit shows in a run that ends only where it is less than the number of its steps. -/
theorem Ends.runWithin_eq_ite {k : Nat} {r : Except Failure Nat} (h : b.Ends k r b')
    (limit : Nat) :
    b.runWithin limit =
      if k ≤ limit then (r, b') else (.error (.stepLimitExceeded limit), b.after limit) := by
  by_cases hk : k ≤ limit
  · rw [if_pos hk]
    exact h.runWithin_eq hk
  · rw [if_neg hk]
    exact runWithin_of_runsFor (h.runsFor_of_lt (Nat.lt_of_not_le hk))

/-! ### The least limit -/

/-- A run that halts counts its steps. -/
theorem Ends.eq_of_ok {k n : Nat} (h : b.Ends k (.ok n) b') : n = k := by
  cases h with
  | halted => rfl

/-- A run comes to one thing only. -/
theorem Ends.unique {k k' : Nat} {r r' : Except Failure Nat} {b'' : Bench κ}
    (h : b.Ends k r b') (h' : b.Ends k' r' b'') : r = r' ∧ b' = b'' := by
  have hlimit := h.runWithin_eq (Nat.le_max_left k k')
  have hlimit' := h'.runWithin_eq (Nat.le_max_right k k')
  rw [hlimit] at hlimit'
  exact Prod.mk.inj hlimit'

/-- A program that halts does so under a limit exactly if the limit allows all its steps. -/
theorem Ends.runWithin_ok_iff {k n : Nat} (h : b.Ends k (.ok n) b') (limit : Nat) :
    (∃ n' c, b.runWithin limit = (.ok n', c)) ↔ k ≤ limit := by
  constructor
  · rintro ⟨n', c, hrun⟩
    rcases runWithin_eq_iff.mp hrun with ⟨_, hresult, _⟩ | ⟨k', hk', h'⟩
    · cases hresult
    · have heq : n = n' := Except.ok.inj (h.unique h').1
      rw [h.eq_of_ok, h'.eq_of_ok] at heq
      rw [heq]
      exact hk'
  · intro hk
    exact ⟨n, b', h.runWithin_eq hk⟩

/-! ### Runs -/

/-- A run with a limit is given up, the bench as the steps left it, exactly if as many steps go on
as the limit allows; else it comes to what the first step that does not go on leads to, and so does
a run without a limit.  So a run that ends comes to the same under every limit that is not less than
the number of its steps, and without one.  A program that halts takes as many steps as the run
counts, and that number is the least limit under which it halts. -/
theorem run_eq_iterated_steps (b : Bench κ) :
    (∀ patience limit r b', b.run patience (some limit) = some (r, b') ↔
      (b.RunsFor limit ∧ r = .error (.stepLimitExceeded limit) ∧ b' = b.after limit) ∨
        ∃ k ≤ limit, b.Ends k r b') ∧
    (∀ patience r b', b.run patience none = some (r, b') ↔ ∃ k ≤ patience, b.Ends k r b') ∧
    (∀ k r b', b.Ends k r b' → ∀ patience,
      (∀ limit, b.run patience (some limit) = some
        (if k ≤ limit then (r, b') else (.error (.stepLimitExceeded limit), b.after limit))) ∧
      (k ≤ patience → b.run patience none = some (r, b'))) ∧
    ∀ k n b', b.Ends k (.ok n) b' →
      n = k ∧ ∀ patience limit,
        (∃ n' c, b.run patience (some limit) = some (.ok n', c)) ↔ k ≤ limit := by
  refine ⟨fun patience limit r b' => ?_, fun patience r b' => ?_, fun k r b' h patience => ⟨?_, ?_⟩,
    fun k n b' h => ⟨?_, ?_⟩⟩
  · rw [run, Option.some_inj]
    exact runWithin_eq_iff
  · exact runObserved_eq_some_iff
  · intro limit
    rw [run, h.runWithin_eq_ite]
  · exact h.runObserved_eq
  · exact h.eq_of_ok
  · intro patience limit
    rw [← h.runWithin_ok_iff limit]
    simp only [run, Option.some_inj]

end Bench

end WordMachine
