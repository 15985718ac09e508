import WordMachine.Proofs.Provenance
import WordMachine.Proofs.Resumption

/-!
# Programs that end

A run without a limit may go on forever, and no part of a machine has to get smaller on the way.  But a
program whose jumps all lead forward cannot come back to a word that it has left: its program counter
grows with every step that goes on, and behind the last word there is nothing to fetch.

The program may change while it runs, and a jump that appears on the way could lead back.  STORE can
write any word, so there must be none.  READ is harmless wherever it stores: its words are operand
fields, and these execute as END (`Memory.InputOver`).  So every jump that is ever executed is a jump of
the first memory, and `Memory.Forward` asks of that memory alone.  The main statement,
`Bench.ends_of_forward`, gives the bound: one step for each word from the program counter on, and one
more.
-/

namespace WordMachine

/-- No word of the memory is a STORE, and every jump leads to a word behind its own. -/
structure Memory.Forward (m : Memory) : Prop where
  storeFree : m.StoreFree
  target : ∀ (i : WordIndex) (w : Word), m.words[i]? = some w → w.opcode.category = .jump →
    i < w.target

/-- In a memory that was forward at the start, jumps still lead forward when input has come into it. -/
theorem Memory.InputOver.lt_target {start m : Memory} (h : start.InputOver m)
    (hstart : start.Forward) {i : WordIndex} {w : Word} (hw : m.words[i]? = some w)
    (hjump : w.opcode.category = .jump) : i < w.target := by
  rcases h.word i w hw with horiginal | hlt
  · exact hstart.target i w horiginal hjump
  · rw [Word.opcode_of_lt hlt] at hjump
    exact absurd hjump (by decide)

/-- An instruction that goes on leads to the next word, or is a jump and leads to its target. -/
theorem Machine.Executes.pc_eq {κ : Type} [Console κ] {m m' : Machine} {k k' : κ} {i : Instruction}
    (h : m.Executes k i m' k') (hgoes : statusAfter i = .running) :
    m'.pc = m.pc.next ∨ ∃ taken a, i.jump? m.accumulator = some (taken, a) ∧ m'.pc = a := by
  cases hjump : i.jump? m.accumulator with
  | none =>
    left
    cases h with
    | halt => exact absurd hgoes (by decide)
    | jmp | jneg | jzero => exact absurd hjump nofun
    | _ => rfl
  | some outcome =>
    obtain ⟨taken, a⟩ := outcome
    obtain rfl := h.eq_jump hjump
    unfold jump
    by_cases htaken : taken = true
    · right
      refine ⟨taken, a, rfl, ?_⟩
      rw [if_pos htaken]
      rfl
    · left
      rw [if_neg htaken]
      rfl

namespace Bench

variable {κ : Type} [Console κ] {b : Bench κ} {start : Memory}

/-! ### The program counter -/

/-- A step that goes on leads forward. -/
theorem pc_lt_step (h : start.InputOver b.machine.memory) (hstart : start.Forward)
    (hstep : b.step.1 = .ok .running) : b.machine.pc < b.step.2.machine.pc := by
  obtain ⟨w, hw, hexec, hstatus, -⟩ := step_eq_ok_iff.mp (Prod.ext hstep rfl)
  rcases hexec.pc_eq hstatus.symm with hnext | ⟨taken, a, hjump, htarget⟩
  · rw [hnext]
    exact Nat.lt_succ_self b.machine.pc
  · have hdecode := Word.jump?_decode ⟨w, b.machine.pc, b.machine.accumulator⟩
    have hjump' : w.decode.jump? b.machine.accumulator = some (taken, a) := hjump
    by_cases hcategory : w.opcode.category = .jump
    · rw [if_pos hcategory, hjump'] at hdecode
      have ha : a = w.target := congrArg Prod.snd (Option.some.inj hdecode)
      rw [htarget, ha]
      exact h.lt_target hstart hw hcategory
    · rw [if_neg hcategory, hjump'] at hdecode
      exact absurd hdecode nofun

/-- As long as every step goes on, the program counter has grown by one for each of them at least. -/
theorem RunsFor.pc_add_le {n : Nat} (hruns : b.RunsFor n) (h : b.machine.memory.Forward) :
    b.machine.pc + n ≤ (b.after n).machine.pc := by
  induction n with
  | zero => exact Nat.le_refl b.machine.pc
  | succ n ih =>
    have hbefore : b.machine.pc + n ≤ (b.after n).machine.pc := ih (hruns.of_le (Nat.le_succ n))
    have hinput := inputOver_after h.storeFree n
    have hgrows := pc_lt_step hinput h (hruns n (Nat.lt_succ_self n))
    exact Nat.lt_of_le_of_lt hbefore hgrows

/-- A step that goes on has found a word to fetch. -/
theorem pc_lt_of_step_eq_ok {st : Status} (hstep : b.step.1 = .ok st) :
    b.machine.pc < b.machine.memory.capacity := by
  refine Nat.lt_of_not_le ?_
  intro hle
  rw [step_of_le hle] at hstep
  exact absurd hstep nofun

/-- So not every step goes on: there are no more than words from the program counter on. -/
theorem RunsFor.le_of_forward {n : Nat} (hruns : b.RunsFor n) (h : b.machine.memory.Forward) :
    n ≤ b.machine.memory.capacity - b.machine.pc := by
  cases n with
  | zero => exact Nat.zero_le _
  | succ n =>
    have hgrown := (hruns.of_le (Nat.le_succ n)).pc_add_le h
    have hfetched := pc_lt_of_step_eq_ok (hruns n (Nat.lt_succ_self n))
    rw [(inputOver_after h.storeFree n).capacity] at hfetched
    have hlt : n + b.machine.pc < b.machine.memory.capacity := by
      rw [Nat.add_comm]
      exact Nat.lt_of_le_of_lt hgrown hfetched
    exact Nat.lt_sub_of_add_lt hlt

/-! ### Runs -/

/-- Forward programs end.  If a memory of `c` words has no STORE and no jump that does not lead forward,
then from the program counter `p` on, whatever the accumulator is and whatever the console hands out,
one of the first `c - p + 1` steps halts or fails.  So a run without a limit ends; and under a limit that
allows so many steps a run ends in the same way and is not given up: if the result says that a limit was
used up, then it is the console that has said so. -/
theorem ends_of_forward (h : b.machine.memory.Forward) :
    let bound := b.machine.memory.capacity - b.machine.pc + 1
    (∃ j < bound, b.RunsFor j ∧ (b.after j).step.1 ≠ .ok .running) ∧
    ∃ r b', (∀ patience, bound ≤ patience → b.run patience none = some (r, b')) ∧
      (∀ patience limit, bound ≤ limit → b.run patience (some limit) = some (r, b')) ∧
      ∀ limit, r = .error (.stepLimitExceeded limit) →
        ∃ i, Console.Fails (b.after i).console (.stepLimitExceeded limit) := by
  intro bound
  have hstops : ∃ j < bound, b.RunsFor j ∧ (b.after j).step.1 ≠ .ok .running := by
    rcases b.runsFor_or_stops bound with hruns | hstops
    · exact absurd (hruns.le_of_forward h) (Nat.not_succ_le_self _)
    · exact hstops
  refine ⟨hstops, ?_⟩
  obtain ⟨j, hj, hruns, hstop⟩ := hstops
  obtain ⟨r, b', hends⟩ := exists_ends_of_stop hruns hstop
  refine ⟨r, b', ?_, ?_, ?_⟩
  · intro patience hpatience
    exact hends.runObserved_eq (Nat.le_trans hj hpatience)
  · intro patience limit hlimit
    exact congrArg some (hends.runWithin_eq (Nat.le_trans hj hlimit))
  · rintro limit rfl
    exact hends.fails_of_stepLimit

/-- The program reads over the word that follows, and the token spells a jump back to the start.  What is
stored of it executes as END.  The jump behind it then passes over a HALT, so the fifth step finds no word
to fetch, one step before the bound. -/
theorem ends_of_forward_of_read_jump :
    let start : Bench TokenQueue :=
      ⟨{ registers := .powerOn, memory := ⟨#[0x3002, 0xB000, 0xC008, 0xF000, 0xB000]⟩ },
        ⟨["1100000000000000"], {}⟩, #[]⟩
    start.machine.memory.Forward ∧
      (∃ j < 6, start.RunsFor j ∧ (start.after j).step.1 ≠ .ok .running) ∧
      (∃ r b', start.run 6 none = some (r, b') ∧ start.run 0 (some 6) = some (r, b')) ∧
      (start.after 1).machine.memory = ⟨#[0x3002, 0x0000, 0xC008, 0xF000, 0xB000]⟩ ∧
      (start.after 4).machine.pc = 5 := by
  intro start
  have hwords : ∀ i : Fin 5, start.machine.memory.words[i.val]?.all (fun w =>
      w.opcode ≠ .store ∧ (w.opcode.category = .jump → i.val < w.target)) = true := by
    decide +kernel
  have hword : ∀ (i : WordIndex) (w : Word), start.machine.memory.words[i]? = some w →
      w.opcode ≠ .store ∧ (w.opcode.category = .jump → i < w.target) := by
    intro i w hw
    have hi : i < 5 := (Array.getElem?_eq_some_iff.mp hw).1
    have hall := hwords ⟨i, hi⟩
    rw [hw] at hall
    exact of_decide_eq_true hall
  have hforward : start.machine.memory.Forward :=
    ⟨fun i w hw => (hword i w hw).1, fun i w hw => (hword i w hw).2⟩
  obtain ⟨hstops, r, b', hfree, hlimited, -⟩ := ends_of_forward hforward
  exact ⟨hforward, hstops, ⟨r, b', hfree 6 (Nat.le_refl 6), hlimited 0 6 (Nat.le_refl 6)⟩,
    by decide +kernel, by decide +kernel⟩

end Bench

end WordMachine
