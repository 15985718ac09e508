import WordMachine.Host.TokenQueue
import WordMachine.Proofs.Account
import WordMachine.Proofs.Meaning

/-!
# Bookkeeping does not show

What a machine does next depends on the accumulator, the program counter and the memory, and on the
console.  Everything else is bookkeeping: the latch, the tally, the flag that HALT sets and the switch
for tracing.  Two benches take the `SameCourse` when they agree in the former, whatever the latter may
be.  Then what they work with means the same, and steps and runs keep it so, with the same results and
the same fetches.

The fetches decide what the bookkeeping gains: the latch keeps the last of them (`Bench.latch_after`),
they are entered into the tally, and each of them is one event in the log if the switch is on
(`Bench.log_after`).  `Bench.SameCourse.never_parts` puts this together.
-/

namespace WordMachine

/-! ### Machines -/

namespace Machine

/-- The machines agree in all that decides what they do. -/
structure SameCourse (m₁ m₂ : Machine) : Prop where
  accumulator : m₁.accumulator = m₂.accumulator
  pc : m₁.pc = m₂.pc
  memory : m₁.memory = m₂.memory

/-- The next fetch is the same. -/
theorem SameCourse.nextFetch? {m₁ m₂ : Machine} (h : SameCourse m₁ m₂) :
    m₁.nextFetch? = m₂.nextFetch? := by
  rw [Machine.nextFetch?, Machine.nextFetch?, h.accumulator, h.pc, h.memory]

end Machine

/-! ### Steps and runs -/

namespace Bench

variable {κ : Type} [Console κ]

/-- The benches agree in all that decides what is done at them. -/
structure SameCourse (b₁ b₂ : Bench κ) : Prop where
  machine : b₁.machine.SameCourse b₂.machine
  console : b₁.console = b₂.console

namespace SameCourse

variable {b₁ b₂ : Bench κ}

omit [Console κ] in
/-- What decides means the same on both, as it is the same. -/
theorem sameMeaning (h : SameCourse b₁ b₂) : SameMeaning b₁ b₂ := by
  refine ⟨⟨h.machine.accumulator, h.machine.pc, ?_⟩, h.console⟩
  rw [h.machine.memory]
  exact .refl _

/-- A step has the same result, and the benches stay on the same course. -/
theorem step (h : SameCourse b₁ b₂) : Agree SameCourse b₁.step b₂.step := by
  have hword (a : WordIndex) : SameWord a b₁ b₂ := by
    rw [SameWord, h.machine.memory]
  obtain ⟨r, c₁, c₂, hstep₁, hstep₂, ⟨hmachine, hconsole⟩, hwords⟩ :=
    h.sameMeaning.step fun a _ => hword a
  have hmemory : c₁.machine.memory.words = c₂.machine.memory.words :=
    Array.ext_getElem? fun a => hwords a (.inl (hword a))
  exact ⟨r, c₁, c₂, hstep₁, hstep₂,
    ⟨hmachine.accumulator, hmachine.pc, congrArg Memory.mk hmemory⟩, hconsole⟩

/-- The end of a run has the same result as well. -/
theorem finish (h : SameCourse b₁ b₂) (steps : Nat) :
    Agree SameCourse (b₁.finish steps) (b₂.finish steps) :=
  finish_of_console_eq h.console (fun _ _ _ => ⟨h.machine, rfl⟩) steps

/-- So steps and runs cannot tell such benches apart. -/
theorem simulation : Simulation (SameCourse (κ := κ)) :=
  ⟨SameCourse.step, fun steps h => h.finish steps⟩

/-- The fetches are the same. -/
theorem fetches (h : SameCourse b₁ b₂) (n : Nat) : b₁.fetches n = b₂.fetches n := by
  induction n with
  | zero => rfl
  | succ n ih =>
    rw [Bench.fetches, Bench.fetches, ih, (simulation.after h n).machine.nextFetch?]

end SameCourse

end Bench

/-! ### What the bookkeeping gains -/

/-- The event that shows a fetch. -/
def Fetch.event (f : Fetch) : Event :=
  .executing f.word f.pc f.accumulator

/-- What fetches add to the log: an event for each if the switch for tracing is on, and else nothing. -/
def Machine.traceOf (m : Machine) (fs : List Fetch) : List Event :=
  if m.tracing then fs.map Fetch.event else []

theorem Machine.traceOf_nil (m : Machine) : m.traceOf [] = [] := by
  rw [traceOf]
  split <;> rfl

theorem Machine.traceOf_append (m : Machine) (fs gs : List Fetch) :
    m.traceOf (fs ++ gs) = m.traceOf fs ++ m.traceOf gs := by
  rw [traceOf, traceOf, traceOf]
  split
  · exact List.map_append
  · rfl

/-- All these events have the lowest level. -/
theorem Machine.level_of_mem_traceOf {m : Machine} {fs : List Fetch} {e : Event}
    (h : e ∈ m.traceOf fs) : e.level = .trace := by
  rw [traceOf] at h
  split at h
  · obtain ⟨f, -, rfl⟩ := List.mem_map.mp h
    rfl
  · cases h

namespace Bench

variable {κ : Type} [Console κ] {b b' : Bench κ}

/-- The latch keeps the last word fetched. -/
theorem latch_after {n : Nat} {f : Fetch} (h : (b.fetches n).getLast? = some f) :
    (b.after n).machine.registers.ir = f.word ∧
      (b.after n).machine.registers.opcode = f.word.opcode ∧
      (b.after n).machine.registers.operand = f.word.operandField := by
  have hlatch := fetches_induct (b := b) (P := fun fs m => ∀ f, fs.getLast? = some f →
    m.registers.ir = f.word ∧ m.registers.opcode = f.word.opcode ∧
      m.registers.operand = f.word.operandField) nofun ?_ n
  · exact hlatch f h
  · intro fs m g m' _ _ hattempts f hlast
    rw [List.getLast?_concat] at hlast
    cases hlast
    exact ⟨hattempts.ir, hattempts.opcode, hattempts.operand⟩

/-- The switch for tracing stays as it is. -/
theorem tracing_after (b : Bench κ) (n : Nat) :
    (b.after n).machine.tracing = b.machine.tracing :=
  fetches_induct (P := fun _ m => m.tracing = b.machine.tracing) rfl
    (fun hm _ hattempts => hattempts.tracing.trans hm) n

/-- A step adds to the log what its fetch adds. -/
theorem log_step (b : Bench κ) :
    b.step.2.log.toList =
      b.log.toList ++ b.machine.traceOf b.machine.nextFetch?.toList := by
  cases hfetch : b.machine.nextFetch? with
  | none =>
    rw [step_of_nextFetch_eq_none hfetch, Option.toList_none, Machine.traceOf_nil, List.append_nil]
  | some f =>
    obtain ⟨w, hw, rfl⟩ := Option.map_eq_some_iff.mp hfetch
    have hlog : b.step.2.log = noteFetch b.log (b.machine.fetch w) w := by
      rw [step_of_fetch hw]
      rcases (b.machine.fetch w).execute b.console w.decode with ⟨_ | _, _⟩ <;> rfl
    have htracing : (b.machine.fetch w).tracing = b.machine.tracing := rfl
    rw [hlog, noteFetch, htracing, Machine.traceOf]
    split
    · exact Array.toList_push
    · exact (List.append_nil _).symm

/-- Steps add to the log what their fetches add. -/
theorem log_after (b : Bench κ) (n : Nat) :
    (b.after n).log.toList = b.log.toList ++ b.machine.traceOf (b.fetches n) := by
  induction n with
  | zero => rw [fetches, Machine.traceOf_nil, List.append_nil, after]
  | succ n ih =>
    have htrace (fs : List Fetch) : (b.after n).machine.traceOf fs = b.machine.traceOf fs := by
      rw [Machine.traceOf, Machine.traceOf, tracing_after]
    rw [after, log_step, ih, htrace, fetches, Machine.traceOf_append, List.append_assoc]

/-- The events of the lowest level in the log. -/
def traces (b : Bench κ) : List Event :=
  b.log.toList.filter (·.level = .trace)

theorem traces_after (b : Bench κ) (n : Nat) :
    (b.after n).traces = b.traces ++ b.machine.traceOf (b.fetches n) := by
  have hall : (b.machine.traceOf (b.fetches n)).filter (·.level = .trace) =
      b.machine.traceOf (b.fetches n) := by
    refine List.filter_eq_self.mpr fun e he => ?_
    exact decide_eq_true (Machine.level_of_mem_traceOf he)
  rw [traces, log_after, List.filter_append, hall, traces]

/-- What a run notes of its end has another level. -/
theorem Ends.traces_eq {k : Nat} {r : Except Failure Nat} (h : b.Ends k r b') :
    b'.traces = (b.after k).traces := by
  cases h with
  | halted _ hstep =>
    rw [after_succ_of_step hstep, traces, traces, Array.toList_push, List.filter_append]
    exact List.append_nil _
  | unflushed _ hstep =>
    rw [after_succ_of_step hstep]
    rfl
  | failed _ hstep => rw [after_succ_of_step hstep]

/-- A run adds to the events of the lowest level what its fetches add. -/
theorem traces_of_run {patience : Nat} {limit : Option Nat} {r : Except Failure Nat}
    (h : b.run patience limit = some (r, b')) :
    b'.traces = b.traces ++ b.machine.traceOf (b.runFetches patience limit) := by
  rw [runFetches, ← traces_after]
  rcases run_eq_some_iff.mp h with ⟨n, rfl, hruns, -, rfl⟩ | ⟨k, hk, hends⟩
  · rw [Option.getD_some, hruns.begun_eq]
  · rw [hends.begun_eq hk, hends.traces_eq]

/-! ### Two courses -/

/-- `SameWay b₁ b₂ fs c₁ c₂`: through the fetches `fs` the benches `b₁` and `b₂` have come to `c₁` and
`c₂`, which are on the same course. -/
structure SameWay (b₁ b₂ : Bench κ) (fs : List Fetch) (c₁ c₂ : Bench κ) : Prop where
  course : SameCourse c₁ c₂
  /-- With the first fetch the latch is the same. -/
  registers : fs ≠ [] → c₁.machine.registers = c₂.machine.registers
  /-- The fetches have been entered into both tallies. -/
  tallies : c₁.machine.tally = b₁.machine.tally.withFetches fs ∧
    c₂.machine.tally = b₂.machine.tally.withFetches fs

namespace SameCourse

variable {b₁ b₂ c₁ c₂ : Bench κ}

/-- Benches that some number of steps leads to, whatever is then done at their consoles, have come the
same way if they are still on the same course. -/
theorem sameWay {n : Nat} (h : SameCourse b₁ b₂) (hc : SameCourse c₁ c₂)
    (h₁ : c₁.machine = (b₁.after n).machine) (h₂ : c₂.machine = (b₂.after n).machine) :
    SameWay b₁ b₂ (b₁.fetches n) c₁ c₂ := by
  refine ⟨hc, fun hne => ?_, ?_, ?_⟩
  · obtain ⟨f, hlast⟩ := Option.ne_none_iff_exists'.mp (mt List.getLast?_eq_none_iff.mp hne)
    obtain ⟨hir₁, hopcode₁, hoperand₁⟩ := latch_after hlast
    rw [h.fetches n] at hlast
    obtain ⟨hir₂, hopcode₂, hoperand₂⟩ := latch_after hlast
    rw [← h₁] at hir₁ hopcode₁ hoperand₁
    rw [← h₂] at hir₂ hopcode₂ hoperand₂
    rw [Registers.mk.injEq]
    exact ⟨hc.machine.accumulator, hc.machine.pc, hir₁.trans hir₂.symm,
      hopcode₁.trans hopcode₂.symm, hoperand₁.trans hoperand₂.symm⟩
  · rw [h₁]
    exact b₁.tally_after n
  · rw [h₂, h.fetches n]
    exact b₂.tally_after n

/-- Benches on the same course come the same way through a run. -/
theorem sameWay_run (h : SameCourse b₁ b₂) (patience : Nat) (limit : Option Nat) :
    Option.Rel (Agree (SameWay b₁ b₂ (b₁.runFetches patience limit)))
      (b₁.run patience limit) (b₂.run patience limit) := by
  have hrun := simulation.run h patience limit
  generalize hrun₁ : b₁.run patience limit = x at hrun ⊢
  generalize hrun₂ : b₂.run patience limit = y at hrun ⊢
  cases hrun with
  | none => exact .none
  | some hagree =>
    obtain ⟨r, c₁, c₂, rfl, rfl, hc⟩ := hagree
    have h₁ := machine_eq_of_run hrun₁
    have h₂ := machine_eq_of_run hrun₂
    rw [← simulation.begun h] at h₂
    exact .some ⟨r, c₁, c₂, rfl, rfl, h.sameWay hc h₁ h₂⟩

/-- Two benches with the same accumulator, program counter, memory and console never part, whatever
their latches, flags, switches and tallies may be.  Each step has the same result on both, and so has
each run; at every point they are on the same course, with the same latch once a word has been fetched
and with the same gains in their tallies.

The log shows the fetches as they are.  With the switch on, each of them is one event, in order, and
with the switch off there is none; a run adds no other event of the lowest level.  Such an event shows
the word, its assembly text, and the program counter and the accumulator before it is executed. -/
theorem never_parts (h : SameCourse b₁ b₂) :
    (∀ n, (b₁.after n).step.1 = (b₂.after n).step.1 ∧ b₁.fetches n = b₂.fetches n ∧
      SameWay b₁ b₂ (b₁.fetches n) (b₁.after n) (b₂.after n)) ∧
    (∀ patience limit, Option.Rel (Agree (SameWay b₁ b₂ (b₁.runFetches patience limit)))
      (b₁.run patience limit) (b₂.run patience limit)) ∧
    (∀ b : Bench κ,
      (∀ n, (b.after n).log.toList =
        b.log.toList ++ if b.machine.tracing then (b.fetches n).map Fetch.event else []) ∧
      ∀ patience limit r b', b.run patience limit = some (r, b') →
        b'.traces = b.traces ++
          if b.machine.tracing then (b.runFetches patience limit).map Fetch.event else []) ∧
    ∀ f : Fetch, f.event.level = .trace ∧
      f.event.message = Numeral.hexCapital 4 f.word.toNat ++ "  " ++ f.word.disassembly ∧
      f.event.fields = [("pc", .number f.pc), ("acc", .number f.accumulator.toInt)] := by
  refine ⟨fun n => ⟨?_, h.fetches n, ?_⟩, h.sameWay_run, fun b => ⟨b.log_after, ?_⟩,
    fun f => ⟨rfl, rfl, rfl⟩⟩
  · obtain ⟨r, c₁, c₂, hstep₁, hstep₂, -⟩ := (simulation.after h n).step
    rw [hstep₁, hstep₂]
  · exact h.sameWay (simulation.after h n) rfl rfl
  · intro patience limit r b' hrun
    exact traces_of_run hrun

/-- A program writes a word out and halts.  The second bench has another latch, is marked as halted, has
counted before and traces; still it halts after two steps like the first. -/
theorem never_parts_of_marked_bench :
    let plain : Bench TokenQueue := {
      machine := { registers := .powerOn, memory := ⟨#[0x4004, 0xF000, 42]⟩ }
      console := { tokens := [], sink := {} } }
    let marked : Bench TokenQueue := { plain with
      machine := {
        registers := { ir := 0xF123, opcode := .halt, operand := 0x123 }
        memory := plain.machine.memory
        tally := { instructions := 7, other := 7 }
        tracing := true
        halted := true } }
    plain.SameCourse marked ∧
    (plain.run 5 none).map (·.1.toOption) = some (some 2) ∧
    Option.Rel (Agree (SameWay plain marked (plain.runFetches 5 none))) (plain.run 5 none)
      (marked.run 5 none) ∧
    (marked.after 2).log.toList = [.executing 0x4004 0 0, .executing 0xF000 1 0] := by
  intro plain marked
  have hsame : plain.SameCourse marked := ⟨⟨rfl, rfl, rfl⟩, rfl⟩
  obtain ⟨-, hrun, hlog, -⟩ := never_parts hsame
  refine ⟨hsame, by decide +kernel, hrun 5 none, ?_⟩
  rw [(hlog marked).1]
  decide +kernel

end SameCourse

end Bench

end WordMachine
