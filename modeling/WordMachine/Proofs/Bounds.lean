import WordMachine.Host.TokenQueue
import WordMachine.Proofs.History
import WordMachine.Proofs.HostFailure

/-!
# How far a machine can get

An operand field of twelve bits counts bytes, so no instruction carries an index above `2047`.  A
program counter that has jumped is therefore at most `2047`, and one that has gone on from a word of a
memory of `c` words is at most `c`.  `Machine.Bounded c` says that it is one or the other, along with
the size of memory, which never changes, and the latch, whose parts always belong together.

It follows which accesses outside memory there are.  `Reached.bounded_and_outOfBounds` lists them: in a
memory of at least `2048` words only a fetch can fail, right behind the last word, and the machine has
come there by going on from that word.
-/

namespace WordMachine

/-- How far a machine whose memory has `c` words can get. -/
structure Machine.Bounded (c : Nat) (m : Machine) : Prop where
  capacity : m.memory.capacity = c
  pc_le : m.pc ≤ max c 2047
  opcode : m.registers.opcode.code = m.registers.ir.toNat / 4096
  operand : m.registers.operand.toNat = m.registers.ir.toNat % 4096

/-- The index of a word that was fetched is less than the size of memory. -/
theorem Machine.pc_lt_of_nextFetch {m : Machine} {f : Fetch} (h : m.nextFetch? = some f) :
    m.pc < m.memory.capacity := by
  refine Nat.lt_of_not_le fun hle => ?_
  rw [nextFetch?_eq_none_iff.mpr hle] at h
  cases h

/-- A step that begins with a fetch stays within the bounds. -/
theorem Machine.Attempts.bounded {c : Nat} {m m' : Machine} {f : Fetch} (h : m.Attempts f m')
    (hfetch : m.nextFetch? = some f) (hm : m.Bounded c) : m'.Bounded c where
  capacity := h.capacity.trans hm.capacity
  pc_le := by
    have hlt : m.pc < c := hm.capacity ▸ pc_lt_of_nextFetch hfetch
    cases hjumps : f.jumps with
    | true =>
      rw [h.pc_of_jumps hjumps]
      exact Nat.le_trans (Word.target_le f.word) (Nat.le_max_right c 2047)
    | false =>
      rcases h.pc_of_not_jumps hjumps with hpc | hpc
      · rw [hpc]
        exact hm.pc_le
      · rw [hpc]
        exact Nat.le_trans hlt (Nat.le_max_left c 2047)
  opcode := by
    rw [h.opcode, h.ir]
    exact Word.code_opcode f.word
  operand := by
    rw [h.operand, h.ir]
    exact Word.toNat_operandField f.word

/-- A machine with the registers of one that was just switched on is within its bounds. -/
theorem Machine.bounded_of_registers {m : Machine} (h : m.registers = .powerOn) :
    m.Bounded m.memory.capacity where
  capacity := rfl
  pc_le := by
    rw [pc, h]
    exact Nat.zero_le _
  opcode := by
    rw [h]
    decide
  operand := by
    rw [h]
    decide

/-- Nothing that happens to a machine takes it out of its bounds. -/
theorem Machine.kept_bounded (c : Nat) : Kept fun _ m => m.Bounded c where
  reset {_ m} hm := by
    have hcapacity : m.reset.memory.capacity = c :=
      (Memory.capacity_clear m.memory).trans hm.capacity
    rw [← hcapacity]
    exact bounded_of_registers rfl
  memory hm hcapacity := ⟨hcapacity.trans hm.capacity, hm.pc_le, hm.opcode, hm.operand⟩
  loaded _ hm := ⟨hm.capacity, hm.pc_le, hm.opcode, hm.operand⟩
  attempt hm hfetch hattempts := hattempts.bounded hfetch hm

namespace Reached

variable {s : Settings} {history : History} {m : Machine}

/-- Every machine that can be reached is within its bounds. -/
theorem bounded (h : Reached s history m) : m.Bounded s.layout.capacity := by
  refine h.of_kept (Machine.kept_bounded s.layout.capacity) ?_
  have hcapacity : (Machine.powerOn s).memory.capacity = s.layout.capacity :=
    Memory.capacity_blank s.layout.capacity
  rw [← hcapacity]
  exact Machine.bounded_of_registers rfl

end Reached

/-! ### Steps outside memory -/

namespace Bench

variable {κ : Type} [Console κ] {b : Bench κ} {c : Nat}

/-- An index outside memory that a step names, and not the console, is where the program counter
points, or the target of a word. -/
theorem index_of_step_eq_outOfBounds {index capacity : Nat} (hb : b.machine.Bounded c)
    (h : b.step.1 = .error (.memoryOutOfBounds index capacity))
    (hconsole : ¬ Console.Fails b.console (.memoryOutOfBounds index capacity)) :
    capacity = c ∧ c ≤ index ∧
      ((b.machine.nextFetch? = none ∧ index = b.machine.pc) ∨ index ≤ 2047) := by
  rcases eq_of_step_eq_error h with hfails | hzero | hended | ⟨i, hle, heq, hindex⟩
  · exact absurd hfails hconsole
  · cases hzero
  · cases hended
  · rw [hb.capacity] at hle
    obtain ⟨rfl, rfl⟩ := Failure.memoryOutOfBounds.inj heq
    refine ⟨hb.capacity, hle, ?_⟩
    rcases hindex with hfetch | ⟨f, -, rfl⟩
    · exact .inl hfetch
    · exact .inr (Word.target_le f.word)

/-- A step that gets behind the last word of a memory of at least `2048` words goes on from that
word. -/
theorem next_of_step_pc_eq (hc : 2048 ≤ c) (hpc : b.step.2.machine.pc = c)
    (hne : b.machine.pc ≠ c) :
    ∃ f, b.machine.nextFetch? = some f ∧ f.jumps = false ∧ b.machine.pc.next = c := by
  cases hfetch : b.machine.nextFetch? with
  | none =>
    rw [step_of_nextFetch_eq_none hfetch] at hpc
    exact absurd hpc hne
  | some f =>
    have hattempts := attempts_of_nextFetch hfetch
    cases hjumps : f.jumps with
    | true =>
      have htarget : f.word.target = c := (hattempts.pc_of_jumps hjumps).symm.trans hpc
      have hle := Word.target_le f.word
      rw [htarget] at hle
      exact absurd (Nat.le_trans hc hle) (by decide)
    | false =>
      refine ⟨f, rfl, hjumps, ?_⟩
      rcases hattempts.pc_of_not_jumps hjumps with hstay | hnext
      · exact absurd (hstay.symm.trans hpc) hne
      · exact hnext.symm.trans hpc

end Bench

namespace Reached

variable {s : Settings} {history : History} {m : Machine}

/-- Whatever has been done with a machine that was switched on with a memory of `c` words, with any
consoles, the memory still has `c` words, the program counter is at most `c` or at most `2047`, and
the operation and the operand field in the latch are those of the word in it.  If the next step fails
because an index lies outside memory, and not because a call on the console failed in just this way,
then it names the size of memory and an index that is not less and at most `c` or at most `2047`.

In a memory of at least `2048` words no word was fetched then, and the index is that of the program
counter, right behind the last word.  The machine comes there only by going on from that word, never by
a jump. -/
theorem bounded_and_outOfBounds (h : Reached s history m) :
    let c := s.layout.capacity
    m.Bounded c ∧
    ∀ {κ : Type} [Console κ] (b : Bench κ), b.machine = m →
      (∀ index capacity, b.step.1 = .error (.memoryOutOfBounds index capacity) →
        ¬ Console.Fails b.console (.memoryOutOfBounds index capacity) →
        capacity = c ∧ c ≤ index ∧ index ≤ max c 2047 ∧
          (2048 ≤ c → m.nextFetch? = none ∧ index = m.pc ∧ index = c)) ∧
      (2048 ≤ c → b.step.2.machine.pc = c → m.pc ≠ c →
        ∃ f, m.nextFetch? = some f ∧ f.jumps = false ∧ m.pc.next = c) := by
  intro c
  have hm : m.Bounded c := h.bounded
  refine ⟨hm, ?_⟩
  rintro κ _ b rfl
  refine ⟨fun index capacity hstep hconsole => ?_, Bench.next_of_step_pc_eq⟩
  obtain ⟨hcapacity, hle, hindex⟩ := Bench.index_of_step_eq_outOfBounds hm hstep hconsole
  have hmax : index ≤ max c 2047 := by
    rcases hindex with ⟨-, rfl⟩ | hlow
    · exact hm.pc_le
    · exact Nat.le_trans hlow (Nat.le_max_right c 2047)
  refine ⟨hcapacity, hle, hmax, fun hc => ?_⟩
  -- no word has a target as high as the size of memory
  rcases hindex with ⟨hfetch, hpc⟩ | hlow
  · rw [Nat.max_eq_left (Nat.le_of_succ_le hc)] at hmax
    exact ⟨hfetch, hpc, Nat.le_antisymm hmax hle⟩
  · exact absurd (Nat.le_trans hc (Nat.le_trans hle hlow)) (by decide)

/-- In a memory of `2048` words a jump gets to the last word, which does nothing.  The second step goes
on from there, and the third finds no word to fetch. -/
theorem bounded_and_outOfBounds_of_last_word :
    let start : Bench TokenQueue := .powerOn .standard { tokens := [], sink := {} }
    let jumped := (start.loadImage [0xCFFE]).2.step.2
    let behind := jumped.step.2
    jumped.machine.pc = 2047 ∧
      (∃ f, jumped.machine.nextFetch? = some f ∧ f.jumps = false ∧ jumped.machine.pc.next = 2048) ∧
      behind.step.1 = .error (.memoryOutOfBounds 2048 2048) ∧
      behind.machine.nextFetch? = none := by
  intro start jumped behind
  have hjumped : Reached .standard _ jumped.machine :=
    .step (.image [0xCFFE] (b := start) .powerOn)
  have hbehind : Reached .standard _ behind.machine := .step hjumped
  have hpc : jumped.machine.pc = 2047 := by
    decide +kernel
  have hpc' : behind.machine.pc = 2048 := by
    decide +kernel
  have hcapacity : behind.machine.memory.capacity = 2048 := hbehind.bounded.capacity
  have hstep : behind.step.1 = .error (.memoryOutOfBounds 2048 2048) := by
    rw [Bench.step_of_le (Nat.le_of_eq (hcapacity.trans hpc'.symm)), Memory.outOfBounds, hpc',
      hcapacity]
  have hconsole : ¬ Console.Fails behind.console (.memoryOutOfBounds 2048 2048) := by
    intro hfails
    obtain ⟨text, htext⟩ := TokenQueue.eq_io_of_fails hfails
    cases htext
  have hlast := ((bounded_and_outOfBounds hjumped).2 jumped rfl).2
  have hnone := ((bounded_and_outOfBounds hbehind).2 behind rfl).1 2048 2048 hstep hconsole
  refine ⟨hpc, hlast (Nat.le_refl 2048) hpc' ?_, hstep, (hnone.2.2.2 (Nat.le_refl 2048)).1⟩
  rw [hpc]
  decide

end Reached

end WordMachine
