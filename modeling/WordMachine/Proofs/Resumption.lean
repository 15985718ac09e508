import WordMachine.Proofs.HostFailure

/-!
# Resuming a run

A run that has used up its limit stands between two steps.  Nothing was done to give it up: the
machine and the console are those that the steps have left.  So the run can be taken up again from
there, and `Bench.run_resumed` says that this cannot be told from a run that was never cut off, except
that the second part counts its steps from one again.  `Resumes taken x y` is that relation between
what the second part comes to and what the whole run comes to.

A console is supposed to report failures of input and output only.  One that claims a limit to be used
up would end a run with a failure that says so, in the middle of it; `Bench.Ends.fails_of_stepLimit`
is the reason why no other run fails in this way before its limit is used up.
-/

namespace WordMachine

namespace Bench

variable {κ : Type}

/-- The result of a whole run, told by the result of the part after its first `taken` steps: the steps
are counted from the start. -/
def resumedResult (taken : Nat) : Except Failure Nat → Except Failure Nat
  | .ok steps => .ok (taken + steps)
  | .error (.stepLimitExceeded limit) => .error (.stepLimitExceeded (taken + limit))
  | .error e => .error e

/-- `Resumes taken x y`: the part of a run after its first `taken` steps comes to `x`, and the whole of
it to `y`. -/
structure Resumes (taken : Nat) (x y : Except Failure Nat × Bench κ) : Prop where
  result : y.1 = resumedResult taken x.1
  machine : y.2.machine = x.2.machine
  console : y.2.console = x.2.console
  /-- The same events are logged, the number of steps in the last apart. -/
  log : y.2.log = x.2.log ∨
    ∃ (log : Array Event) (steps : Nat) (pc : WordIndex) (accumulator : Int32),
      x.2.log = log.push (.halted steps pc accumulator) ∧
        y.2.log = log.push (.halted (taken + steps) pc accumulator)

variable [Console κ] {b c : Bench κ}

/-! ### Steps after steps -/

theorem after_add (b : Bench κ) (n m : Nat) : b.after (n + m) = (b.after n).after m := by
  induction m with
  | zero => rfl
  | succ m ih =>
    rw [← Nat.add_assoc, after, after, ih]

theorem RunsFor.add {n m : Nat} (h : b.RunsFor n) (h' : (b.after n).RunsFor m) :
    b.RunsFor (n + m) := by
  intro i hi
  by_cases hin : i < n
  · exact h i hin
  · have hsplit : n + (i - n) = i := Nat.add_sub_of_le (Nat.le_of_not_lt hin)
    have hrest : i - n < m := by omega
    have hstep := h' (i - n) hrest
    rw [← after_add, hsplit] at hstep
    exact hstep

/-- A run that ends with a used-up limit was told so by its console. -/
theorem Ends.fails_of_stepLimit {k limit : Nat}
    (h : b.Ends k (.error (.stepLimitExceeded limit)) c) :
    ∃ i, Console.Fails (b.after i).console (.stepLimitExceeded limit) := by
  cases h with
  | @unflushed j d _ _ _ hstep _ hflush =>
    refine ⟨j + 1, ?_⟩
    rw [after_succ_of_step hstep]
    exact .flush hflush
  | @failed j _ _ _ hstep =>
    refine ⟨j, ?_⟩
    have hresult : (b.after j).step.1 = .error (.stepLimitExceeded limit) := congrArg Prod.fst hstep
    rcases eq_of_step_eq_error hresult with hfails | hzero | hended | ⟨index, -, houtside, -⟩
    · exact hfails
    · cases hzero
    · cases hended
    · cases houtside

/-- The result of a run that ends changes only in the number of its steps. -/
theorem Ends.resumedResult_eq_error {k : Nat} {e : Failure} (taken : Nat)
    (h : b.Ends k (.error e) c)
    (hhost : ∀ i limit, ¬ Console.Fails (b.after i).console (.stepLimitExceeded limit)) :
    resumedResult taken (.error e) = .error e := by
  cases e with
  | stepLimitExceeded limit =>
    obtain ⟨i, hfails⟩ := h.fails_of_stepLimit
    exact absurd hfails (hhost i limit)
  | _ => rfl

/-! ### The rest of a run and the whole of it -/

/-- If what is left of a run ends, the whole of it ends in the same way, so many steps later. -/
theorem Ends.resumes {taken k : Nat} {r : Except Failure Nat} (h : (b.after taken).Ends k r c)
    (hruns : b.RunsFor taken)
    (hhost : ∀ i limit, ¬ Console.Fails (b.after i).console (.stepLimitExceeded limit)) :
    ∃ r' c', b.Ends (taken + k) r' c' ∧ Resumes taken (r, c) (r', c') := by
  have hrest : ∀ i limit,
      ¬ Console.Fails ((b.after taken).after i).console (.stepLimitExceeded limit) := by
    intro i limit
    rw [← after_add]
    exact hhost (taken + i) limit
  cases h with
  | @halted j d k hmore hstep hflag hflush =>
    rw [← after_add] at hstep
    exact ⟨_, _, .halted (hruns.add hmore) hstep hflag hflush,
      ⟨rfl, rfl, rfl, .inr ⟨_, _, _, _, rfl, rfl⟩⟩⟩
  | @unflushed j d k e hmore hstep hflag hflush =>
    have hresult := (Ends.unflushed hmore hstep hflag hflush).resumedResult_eq_error taken hrest
    rw [← after_add] at hstep
    exact ⟨_, _, .unflushed (hruns.add hmore) hstep hflag hflush,
      ⟨hresult.symm, rfl, rfl, .inl rfl⟩⟩
  | @failed j _ e hmore hstep =>
    have hresult := (Ends.failed hmore hstep).resumedResult_eq_error taken hrest
    rw [← after_add] at hstep
    exact ⟨_, _, .failed (hruns.add hmore) hstep, ⟨hresult.symm, rfl, rfl, .inl rfl⟩⟩

/-- A run that is given up for its limit has taken as many steps, and stands where they lead. -/
theorem runsFor_of_run_eq_stepLimit {patience taken : Nat}
    (hhost : ∀ i limit, ¬ Console.Fails (b.after i).console (.stepLimitExceeded limit))
    (h : b.run patience (some taken) = some (.error (.stepLimitExceeded taken), c)) :
    b.RunsFor taken ∧ c = b.after taken := by
  rcases run_eq_some_iff.mp h with ⟨n, hn, hruns, -, hc⟩ | ⟨k, -, hends⟩
  · cases hn
    exact ⟨hruns, hc⟩
  · obtain ⟨i, hfails⟩ := hends.fails_of_stepLimit
    exact absurd hfails (hhost i taken)

/-- A run that was given up after `taken` steps because its limit was used up can be taken up again
without a trace, on any machine and with any console that does not itself report a used-up limit.  The
rest of it, under any limit, and the whole run under a limit that allows `taken` more steps leave the
same machine and the same console, and their results correspond: where the rest halts after so many
steps, the whole halts after `taken` more; where the rest uses up its limit, the whole uses up its own;
and every other failure is the same.  If neither has a limit, one of them ends exactly if the other
does. -/
theorem run_resumed {observed taken : Nat}
    (hhost : ∀ i limit, ¬ Console.Fails (b.after i).console (.stepLimitExceeded limit))
    (h : b.run observed (some taken) = some (.error (.stepLimitExceeded taken), c))
    (patience : Nat) (limit : Option Nat) :
    Option.Rel (Resumes taken) (c.run patience limit)
      (b.run (taken + patience) (limit.map fun n => taken + n)) := by
  obtain ⟨hruns, rfl⟩ := runsFor_of_run_eq_stepLimit hhost h
  cases limit with
  | some n =>
    rw [Option.map_some, run, run]
    rcases (b.after taken).runsFor_or_ends n with hmore | ⟨k, hk, r, d, hends⟩
    · rw [runWithin_of_runsFor hmore, runWithin_of_runsFor (hruns.add hmore), after_add]
      exact .some ⟨rfl, rfl, rfl, .inl rfl⟩
    · obtain ⟨r', d', hwhole, hresumes⟩ := hends.resumes hruns hhost
      rw [hends.runWithin_eq hk, hwhole.runWithin_eq (Nat.add_le_add_left hk taken)]
      exact .some hresumes
  | none =>
    rw [Option.map_none, run, run]
    rcases (b.after taken).runsFor_or_ends patience with hmore | ⟨k, hk, r, d, hends⟩
    · rw [runObserved_of_runsFor hmore, runObserved_of_runsFor (hruns.add hmore)]
      exact .none
    · obtain ⟨r', d', hwhole, hresumes⟩ := hends.resumes hruns hhost
      rw [hends.runObserved_eq hk, hwhole.runObserved_eq (Nat.add_le_add_left hk taken)]
      exact .some hresumes

/-- A program reads a word, writes it and halts.  Cut off after the first step, it has taken its token;
the rest of it writes the word and halts. -/
theorem run_resumed_of_read_write :
    let start : Bench TokenQueue :=
      ⟨{ registers := .powerOn, memory := ⟨#[0x3006, 0x4006, 0xF000, 0]⟩ },
        ⟨["101", "11"], {}⟩, #[]⟩
    start.run 0 (some 1) = some (.error (.stepLimitExceeded 1), start.after 1) ∧
      Option.Rel (Resumes 1) ((start.after 1).run 2 none) (start.run 3 none) ∧
      ((start.after 1).run 2 none).isSome = true := by
  intro start
  have hhost : ∀ i limit,
      ¬ Console.Fails (start.after i).console (.stepLimitExceeded limit) := by
    intro i limit hfails
    obtain ⟨text, htext⟩ := TokenQueue.eq_io_of_fails hfails
    cases htext
  have hfirst : start.step.1 = .ok .running := by
    have hrunning : start.step.1.toOption = some .running := by decide +kernel
    rcases hstep : start.step.1 with e | status
    · rw [hstep] at hrunning
      cases hrunning
    · rw [hstep] at hrunning
      exact congrArg Except.ok (Option.some.inj hrunning)
  have hruns : start.RunsFor 1 := runsFor_succ_iff.mpr ⟨hfirst, runsFor_zero _⟩
  have hcut : start.run 0 (some 1) = some (.error (.stepLimitExceeded 1), start.after 1) := by
    rw [run, runWithin_of_runsFor hruns]
  exact ⟨hcut, run_resumed hhost hcut 2 none, by decide +kernel⟩

end Bench

end WordMachine
