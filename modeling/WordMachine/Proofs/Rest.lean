import WordMachine.Host.Stream
import WordMachine.Host.TokenQueue
import WordMachine.Proofs.Ending

/-!
# Machines at rest

Nothing stops a machine that has halted from being stepped or run again, as neither looks at the flag that
HALT has set.  But HALT leaves the program counter where it is.  So the next step fetches the same word and
executes HALT once more, and as no other instruction is executed there is none that could replace the
word.  `Machine.AtRest` is the state in which a machine is then: its program counter points to a HALT, which
is also what it has latched.

A step keeps a machine at rest and does nothing to it but count one more HALT
(`Bench.step_of_atRest`), and so does a run, unless its limit is zero (`Bench.resting_of_atRest`).
`Machine.LeadsTo m fs m'` says that steps and runs, one after another and each at a bench of its own, lead from
the machine `m` to `m'`.  Along any of them the flag is set exactly if HALT has been executed, and the
machine is then at rest (`Machine.LeadsTo.halted_iff`), with which `Machine.halt_absorbs` follows.
-/

namespace WordMachine

/-! ### Steps at rest -/

namespace Machine

/-- The machine has executed the HALT to which its program counter points. -/
structure AtRest (m : Machine) : Prop where
  halted : m.halted = true
  /-- The word is still in the latch. -/
  word : ∃ w, m.memory.words[m.pc]? = some w ∧ w.opcode = .halt ∧ m.registers.latch w = m.registers

/-- The machine that has executed HALT `n` times more: the instructions are counted and nothing else has
changed. -/
def afterHalts (n : Nat) (m : Machine) : Machine :=
  { m with tally := { m.tally with
      instructions := m.tally.instructions + n
      other := m.tally.other + n } }

theorem afterHalts_zero (m : Machine) : m.afterHalts 0 = m :=
  rfl

theorem afterHalts_afterHalts (m : Machine) (i j : Nat) :
    (m.afterHalts i).afterHalts j = m.afterHalts (i + j) := by
  simp [afterHalts, Nat.add_assoc]

/-- What is counted does not matter for being at rest. -/
theorem AtRest.afterHalts {m : Machine} (h : m.AtRest) (n : Nat) : (m.afterHalts n).AtRest :=
  ⟨h.halted, h.word⟩

/-- The next fetch of a machine at rest is that of a HALT. -/
theorem AtRest.nextFetch? {m : Machine} (h : m.AtRest) :
    ∃ f, m.nextFetch? = some f ∧ f.word.opcode = .halt := by
  obtain ⟨w, hw, hhalt, -⟩ := h.word
  refine ⟨⟨w, m.pc, m.accumulator⟩, ?_, hhalt⟩
  rw [Machine.nextFetch?, hw]
  rfl

end Machine

namespace Bench

variable {κ : Type} [Console κ] {b : Bench κ}

/-- A step that fetches a HALT executes it: the word is latched and counted, the flag is set, and nothing
else happens. -/
theorem step_of_halt {f : Fetch} (hfetch : b.machine.nextFetch? = some f)
    (hhalt : f.word.opcode = .halt) :
    b.step.1 = .ok .halted ∧ b.step.2.console = b.console ∧
      b.step.2.machine = { b.machine.fetch f.word with halted := true } := by
  obtain ⟨w, hw, rfl⟩ := Option.map_eq_some_iff.mp hfetch
  have hdecode : w.decode = .halt := by
    have hopcode : w.opcode = .halt := hhalt
    rw [Word.decode, hopcode]
  have hexecute : (b.machine.fetch w).execute b.console w.decode =
      (.ok { b.machine.fetch w with halted := true }, b.console) := by
    rw [hdecode]
    rfl
  rw [step_of_fetch hw, hexecute, hdecode]
  exact ⟨rfl, rfl, rfl⟩

/-- A step comes to a halt exactly if it fetches a HALT. -/
theorem step_eq_halted_iff :
    b.step.1 = .ok .halted ↔ ∃ f, b.machine.nextFetch? = some f ∧ f.word.opcode = .halt := by
  constructor
  · intro h
    obtain ⟨w, hw, -, hstatus, -⟩ := step_eq_ok_iff.mp (Prod.ext h rfl)
    refine ⟨⟨w, b.machine.pc, b.machine.accumulator⟩, Option.map_eq_some_iff.mpr ⟨w, hw, rfl⟩, ?_⟩
    rw [Word.decode] at hstatus
    cases hopcode : w.opcode <;> rw [hopcode] at hstatus <;> first | rfl | cases hstatus
  · rintro ⟨f, hfetch, hhalt⟩
    exact (step_of_halt hfetch hhalt).1

/-- After HALT the machine is at rest. -/
theorem atRest_step (h : b.step.1 = .ok .halted) : b.step.2.machine.AtRest := by
  obtain ⟨f, hfetch, hhalt⟩ := step_eq_halted_iff.mp h
  obtain ⟨-, -, hmachine⟩ := step_of_halt hfetch hhalt
  obtain ⟨w, hw, rfl⟩ := Option.map_eq_some_iff.mp hfetch
  rw [hmachine]
  exact ⟨rfl, w, hw, hhalt, rfl⟩

/-- A step of a machine at rest counts one more HALT and does nothing else. -/
theorem step_of_atRest (h : b.machine.AtRest) :
    b.step.1 = .ok .halted ∧ b.step.2.console = b.console ∧
      b.step.2.machine = b.machine.afterHalts 1 := by
  obtain ⟨w, hw, hhalt, hlatch⟩ := h.word
  have hfetch : b.machine.nextFetch? = some ⟨w, b.machine.pc, b.machine.accumulator⟩ :=
    Option.map_eq_some_iff.mpr ⟨w, hw, rfl⟩
  obtain ⟨hresult, hconsole, hmachine⟩ := step_of_halt hfetch hhalt
  refine ⟨hresult, hconsole, ?_⟩
  rw [hmachine, Machine.fetch, hlatch, hhalt, ← h.halted]
  rfl

/-! ### Runs at rest -/

/-- What can still be done at a bench whose machine is at rest, and what it comes to. -/
structure Resting (b : Bench κ) : Prop where
  /-- A step comes to a halt. -/
  step : b.step.1 = .ok .halted
  /-- It has nothing to do with the console. -/
  console_step : b.step.2.console = b.console
  /-- A run with a limit of zero is given up before its first step. -/
  run_zero : ∀ patience, b.run patience (some 0) = some (.error (.stepLimitExceeded 0), b)
  /-- Any other run takes one step, and a flush is all that it asks of the console. -/
  run : ∀ patience limit, 1 ≤ limit.getD patience →
    b.begun (limit.getD patience) = 1 ∧
      ∃ b', b.run patience limit = some ((Console.flush b.console).1.map fun _ => 1, b') ∧
        b'.console = (Console.flush b.console).2

theorem resting_of_atRest (h : b.machine.AtRest) : b.Resting := by
  obtain ⟨hresult, hconsole, -⟩ := step_of_atRest h
  refine ⟨hresult, hconsole, fun patience => rfl, fun patience limit hlimit => ⟨?_, ?_⟩⟩
  · refine begun_of_stop b.runsFor_zero ?_ hlimit
    rw [after, hresult]
    intro heq
    cases heq
  · obtain ⟨n, hn⟩ := Nat.exists_eq_add_one_of_ne_zero (Nat.ne_of_gt hlimit)
    have hadvance : b.advance 0 (limit.getD patience) = (.halted 1, b.step.2) := by
      rw [hn]
      exact advance_succ_of_halted (Prod.ext hresult rfl) 0 n
    rw [run_eq_settle, hadvance, settle, finish, hconsole]
    rcases Console.flush b.console with ⟨e | _, k⟩
    · exact ⟨_, rfl, rfl⟩
    · exact ⟨_, rfl, rfl⟩

end Bench

/-! ### Steps and runs one after another -/

/-- `m.LeadsTo fs m'`: steps and runs, in any order, at benches with any consoles and under any limits, lead
from the machine `m` to `m'`, and `fs` are their fetches. -/
inductive Machine.LeadsTo (m : Machine) : List Fetch → Machine → Prop where
  | refl : LeadsTo m [] m
  /-- A step, whatever it comes to. -/
  | step {κ : Type} [Console κ] {fs} {b : Bench κ} (before : LeadsTo m fs b.machine) :
      LeadsTo m (fs ++ b.machine.nextFetch?.toList) b.step.2.machine
  /-- A run, whatever it comes to. -/
  | run {κ : Type} [Console κ] {fs patience limit r} {b b' : Bench κ}
      (before : LeadsTo m fs b.machine) (ran : b.run patience limit = some (r, b')) :
      LeadsTo m (fs ++ b.runFetches patience limit) b'.machine

namespace Machine

namespace LeadsTo

variable {m m' : Machine} {fs gs : List Fetch}

/-- What is kept by every step is kept by all that leads from a machine to another. -/
theorem induct {P : List Fetch → Machine → Prop} (h : m.LeadsTo fs m') (start : P [] m)
    (step : ∀ {κ : Type} [Console κ] {fs : List Fetch} {b : Bench κ}, P fs b.machine →
      P (fs ++ b.machine.nextFetch?.toList) b.step.2.machine) : P fs m' := by
  induction h with
  | refl => exact start
  | step _ ih => exact step ih
  | @run κ _ fs patience limit r b b' _ ran ih =>
    have hafter (n : Nat) : P (fs ++ b.fetches n) (b.after n).machine := by
      induction n with
      | zero =>
        rw [Bench.fetches, List.append_nil]
        exact ih
      | succ n hn =>
        rw [Bench.fetches, ← List.append_assoc]
        exact step hn
    rw [Bench.machine_eq_of_run ran]
    exact hafter _

/-- If the flag was not set before, it tells whether HALT has been executed; and if so, the machine is at
rest. -/
theorem halted_iff (h : m.LeadsTo fs m') (hm : m.halted = false) :
    (m'.halted = true ↔ ∃ f ∈ fs, f.word.opcode = .halt) ∧ (m'.halted = true → m'.AtRest) := by
  refine h.induct (P := fun fs m' =>
    (m'.halted = true ↔ ∃ f ∈ fs, f.word.opcode = .halt) ∧ (m'.halted = true → m'.AtRest)) ?_ ?_
  · rw [hm]
    simp
  · rintro κ _ fs b ⟨hiff, hrest⟩
    by_cases hstep : b.step.1 = .ok .halted
    · have hafter := Bench.atRest_step hstep
      obtain ⟨f, hfetch, hhalt⟩ := Bench.step_eq_halted_iff.mp hstep
      refine ⟨⟨fun _ => ⟨f, ?_, hhalt⟩, fun _ => hafter.halted⟩, fun _ => hafter⟩
      rw [hfetch]
      exact List.mem_append_right fs (List.mem_singleton_self f)
    · -- the machine was not at rest, so its flag was not set either
      have hrunning : b.machine.halted ≠ true := by
        intro hhalted
        exact hstep (Bench.step_of_atRest (hrest hhalted)).1
      have hflag : b.step.2.machine.halted ≠ true := by
        rw [Bench.halted_step hstep]
        exact hrunning
      refine ⟨⟨fun hhalted => absurd hhalted hflag, ?_⟩, fun hhalted => absurd hhalted hflag⟩
      rintro ⟨f, hf, hhalt⟩
      rcases List.mem_append.mp hf with hbefore | hnext
      · exact absurd (hiff.mpr ⟨f, hbefore, hhalt⟩) hrunning
      · exact absurd (Bench.step_eq_halted_iff.mpr ⟨f, Option.mem_toList.mp hnext, hhalt⟩) hstep

/-- From a machine at rest steps and runs lead nowhere: each fetch is that of a HALT, and they are
counted. -/
theorem eq_afterHalts (h : m.LeadsTo fs m') (hm : m.AtRest) :
    m' = m.afterHalts fs.length ∧ ∀ f ∈ fs, f.word.opcode = .halt := by
  refine h.induct (P := fun fs m' =>
    m' = m.afterHalts fs.length ∧ ∀ f ∈ fs, f.word.opcode = .halt) ?_ ?_
  · exact ⟨m.afterHalts_zero.symm, List.forall_mem_nil _⟩
  · rintro κ _ fs b ⟨hb, hfs⟩
    have hrest : b.machine.AtRest := by
      rw [hb]
      exact hm.afterHalts _
    obtain ⟨f, hfetch, hhalt⟩ := hrest.nextFetch?
    rw [hfetch, Option.toList_some]
    constructor
    · rw [(Bench.step_of_atRest hrest).2.2, hb, afterHalts_afterHalts, List.length_append,
        List.length_singleton]
    · rw [List.forall_mem_append, List.forall_mem_singleton]
      exact ⟨hfs, hhalt⟩

end LeadsTo

/-- HALT is absorbing.  Let a machine not be marked as halted, and let steps and runs be done with it, at
benches with any consoles and under any limits.  It is then marked as halted exactly if one of the words
fetched was a HALT; and the step that fetches such a word is the one that comes to a halt.

If it is marked, then whatever further steps and runs are done with it change nothing but two counters, that
of the instructions and that of the category of HALT, which grow by one for every HALT; and no other
instruction is executed.  At any time a step comes to a halt and does not call the console.  A run under a
limit of zero is given up and leaves everything as it is, and every other run executes one instruction,
calls the console for a flush only, and comes to one step or to the failure of the flush.  The flush of a
stream takes no token and writes nothing. -/
theorem halt_absorbs {m m' : Machine} {fs : List Fetch} (hm : m.halted = false)
    (h : m.LeadsTo fs m') :
    (m'.halted = true ↔ ∃ f ∈ fs, f.word.opcode = .halt) ∧
    (∀ {κ : Type} [Console κ] (b : Bench κ),
      b.step.1 = .ok .halted ↔ ∃ f, b.machine.nextFetch? = some f ∧ f.word.opcode = .halt) ∧
    (m'.halted = true → ∀ gs m'', m'.LeadsTo gs m'' →
      m'' = m'.afterHalts gs.length ∧ (∀ f ∈ gs, f.word.opcode = .halt) ∧
      ∀ {κ : Type} [Console κ] (b : Bench κ), b.machine = m'' → b.Resting) ∧
    ∀ c : StreamConsole, (Console.flush c).2 = { c with sink := c.sink.flush.2 } ∧
      c.sink.flush.2.text = c.sink.text := by
  obtain ⟨hiff, hrest⟩ := h.halted_iff hm
  refine ⟨hiff, fun b => Bench.step_eq_halted_iff, ?_, fun c => ⟨rfl, rfl⟩⟩
  intro hhalted gs m'' hlater
  have hm' : m'.AtRest := hrest hhalted
  obtain ⟨hm'', hgs⟩ := hlater.eq_afterHalts hm'
  refine ⟨hm'', hgs, ?_⟩
  rintro κ _ b rfl
  refine Bench.resting_of_atRest ?_
  rw [hm'']
  exact hm'.afterHalts _

/-- A program writes a word and halts in its second step.  One more step at a console whose output is full
halts again, as it writes nothing. -/
theorem halt_absorbs_of_full_sink :
    let b : Bench TokenQueue := {
      machine := { registers := .powerOn, memory := ⟨#[0x4004, 0xF000, 42]⟩ }
      console := { tokens := ["1"], sink := {} } }
    ∃ b' : Bench TokenQueue, b.run 5 none = some (.ok 2, b') ∧ b'.machine.halted = true ∧
      let full : Bench TokenQueue := {
        machine := b'.machine
        console := { tokens := ["1"], sink := { room := some 0 } } }
      full.step.1 = .ok .halted ∧ full.step.2.machine = b'.machine.afterHalts 1 ∧
        full.Resting := by
  intro b
  have hhalts : (b.run 5 none).map (·.1.toOption) = some (some 2) := by decide +kernel
  obtain ⟨⟨r, b'⟩, hrun, hr⟩ := Option.map_eq_some_iff.mp hhalts
  obtain rfl : r = .ok 2 := by
    cases r with
    | error e => cases hr
    | ok n => exact congrArg Except.ok (Option.some.inj hr)
  have hfetches : ∃ f ∈ b.runFetches 5 none, f.word.opcode = .halt := by decide +kernel
  obtain ⟨hiff, -, habsorbs, -⟩ := halt_absorbs rfl (.run .refl hrun)
  have hhalted : b'.machine.halted = true := hiff.mpr hfetches
  refine ⟨b', hrun, hhalted, ?_⟩
  intro full
  obtain ⟨-, -, hresting⟩ := habsorbs hhalted [] b'.machine .refl
  obtain ⟨hstep, hhalt, -⟩ := habsorbs hhalted _ _ (.step (b := full) .refl)
  have hresult : full.step.1 = .ok .halted := (hresting full rfl).step
  have hone : full.machine.nextFetch?.toList.length = 1 := by
    obtain ⟨f, hfetch, -⟩ := Bench.step_eq_halted_iff.mp hresult
    rw [hfetch]
    rfl
  rw [List.nil_append, hone] at hstep
  exact ⟨hresult, hstep, hresting full rfl⟩

end Machine

end WordMachine
