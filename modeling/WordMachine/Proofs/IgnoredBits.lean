import WordMachine.Host.TokenQueue
import WordMachine.Proofs.Bookkeeping
import WordMachine.Proofs.Ending

/-!
# Ignored bits of instructions

An address counts bytes and a word has two of them, so the lowest bit of an address does not count; and an
instruction without operand ignores the operand field altogether.  `Word.decode_eq_of_target` and
`Word.decode_eq_of_no_operand` say which words mean the same for that reason.

Here two machines run whose memories mean the same, words that differ in ignored bits included.  Programs
may change themselves, and so may words that differ be executed, replaced or read as data.  Only the last
of these can tell the machines apart.  As long as no differing word is read as data, the machines go
through the same steps, and nothing but the latch and differing words themselves is different
(`Bench.Along`).  What differs can only become less, since a word that is stored is the same in both.
The main statement is `Bench.SameMeaning.goes_along`.
-/

namespace WordMachine

/-! ### Words that mean the same -/

namespace Word

/-- An instruction without operand ignores the operand field. -/
theorem decode_eq_of_no_operand {w₁ w₂ : Word} (hopcode : w₁.opcode = w₂.opcode)
    (hnone : w₁.opcode = .endMark ∨ w₁.opcode = .neg ∨ w₁.opcode = .nop ∨ w₁.opcode = .halt) :
    w₁.decode = w₂.decode := by
  rw [decode, decode, ← hopcode]
  rcases hnone with h | h | h | h <;> rw [h]

/-- The mode of an operand field shows in the word to which it points. -/
theorem isLiteral_eq_of_target {w₁ w₂ : Word} (htarget : w₁.target = w₂.target) :
    w₁.isLiteral = w₂.isLiteral := by
  have hbit {n₁ n₂ : Nat} (h : n₁ % 4096 / 2 = n₂ % 4096 / 2) :
      n₁ / 2048 % 2 = 1 ↔ n₂ / 2048 % 2 = 1 := by
    omega
  rw [target_eq, target_eq] at htarget
  rw [Bool.eq_iff_iff, isLiteral_iff, isLiteral_iff]
  exact hbit htarget

/-- Addresses of the two bytes of one word mean the same, unless the field is a literal. -/
theorem decode_eq_of_target {w₁ w₂ : Word} (hopcode : w₁.opcode = w₂.opcode)
    (htarget : w₁.target = w₂.target)
    (haddress : w₁.isLiteral = false ∨ w₁.decode.operand? = none) : w₁.decode = w₂.decode := by
  have hoperand (h : w₁.isLiteral = false) : w₁.operand = w₂.operand := by
    have h' : w₂.isLiteral = false := isLiteral_eq_of_target htarget ▸ h
    rw [operand_of_not_isLiteral h, operand_of_not_isLiteral h', htarget]
  have hsome (o : Operand) : some o ≠ none := Option.some_ne_none o
  rw [decode] at haddress
  rw [decode, decode, ← hopcode, htarget]
  cases ho : w₁.opcode <;> rw [ho] at haddress <;> dsimp only
  case load | add | sub | mul | div | mod => rw [hoperand (haddress.resolve_right (hsome _))]

end Word

/-! ### Fetches -/

/-- Fetches of words with one operation, with the same accumulator, count alike. -/
theorem Tally.withFetches_singleton_congr {f₁ f₂ : Fetch} (hopcode : f₁.word.opcode = f₂.word.opcode)
    (haccumulator : f₁.accumulator = f₂.accumulator) (t : Tally) :
    t.withFetches [f₁] = t.withFetches [f₂] := by
  have hjumps : f₁.jumps = f₂.jumps := by
    rw [Fetch.jumps, Fetch.jumps, hopcode, haccumulator]
  simp only [withFetches, List.countP_singleton, hopcode, hjumps, List.length_singleton]

/-- Machines that mean the same fetch words with one operation. -/
theorem Machine.SameMeaning.nextFetch? {m₁ m₂ : Machine} (h : m₁.SameMeaning m₂) :
    (m₁.nextFetch? = none ∧ m₂.nextFetch? = none) ∨
      ∃ f₁ f₂, m₁.nextFetch? = some f₁ ∧ m₂.nextFetch? = some f₂ ∧
        f₁.word.opcode = f₂.word.opcode ∧ f₁.accumulator = f₂.accumulator := by
  rcases h.words_pc with ⟨hle₁, hle₂⟩ | ⟨w₁, w₂, hw₁, hw₂, hdecode⟩
  · exact .inl ⟨nextFetch?_eq_none_iff.mpr hle₁, nextFetch?_eq_none_iff.mpr hle₂⟩
  · right
    rw [Machine.nextFetch?, Machine.nextFetch?, hw₁, hw₂]
    refine ⟨_, _, rfl, rfl, ?_, h.accumulator⟩
    have hopcode := congrArg Instruction.opcode hdecode
    rw [Word.opcode_decode, Word.opcode_decode] at hopcode
    exact hopcode.symm

/-- The next fetches of machines that mean the same count alike. -/
theorem Machine.SameMeaning.withFetches_nextFetch? {m₁ m₂ : Machine} (h : m₁.SameMeaning m₂)
    (t : Tally) : t.withFetches m₁.nextFetch?.toList = t.withFetches m₂.nextFetch?.toList := by
  rcases h.nextFetch? with ⟨hnone₁, hnone₂⟩ | ⟨f₁, f₂, hf₁, hf₂, hopcode, haccumulator⟩
  · rw [hnone₁, hnone₂]
  · rw [hf₁, hf₂]
    exact Tally.withFetches_singleton_congr hopcode haccumulator t

namespace Bench

variable {κ : Type} [Console κ]

/-! ### Steps -/

/-- In the first `n` steps both machines read the same as data. -/
def ReadAlikeFor (b₁ b₂ : Bench κ) (n : Nat) : Prop :=
  ∀ i < n, ReadsAlike (b₁.after i) (b₂.after i)

/-- `Along b₁ b₂ n c₁ c₂`: after `n` steps from the benches `b₁` and `b₂`, whose machines went through the
same, they have come to `c₁` and `c₂`. -/
structure Along (b₁ b₂ : Bench κ) (n : Nat) (c₁ c₂ : Bench κ) : Prop where
  meaning : SameMeaning c₁ c₂
  /-- Words are the same that have been from the start, and those that have been stored. -/
  sameWord : ∀ a, SameWord a b₁ b₂ ∨ (∃ i < n, (b₁.after i).Stores a) → SameWord a c₁ c₂
  /-- The fetches of the first machine have been entered into both tallies. -/
  tallies : c₁.machine.tally = b₁.machine.tally.withFetches (b₁.fetches n) ∧
    c₂.machine.tally = b₂.machine.tally.withFetches (b₁.fetches n)
  halted : b₁.machine.halted = b₂.machine.halted → c₁.machine.halted = c₂.machine.halted
  tracing : b₁.machine.tracing = b₂.machine.tracing → c₁.machine.tracing = c₂.machine.tracing
  /-- With the first fetch the operation in the latch is the same. -/
  opcode : b₁.machine.registers.opcode = b₂.machine.registers.opcode ∨ b₁.fetches n ≠ [] →
    c₁.machine.registers.opcode = c₂.machine.registers.opcode

variable {b₁ b₂ : Bench κ}

/-- The flag that HALT sets is the same after a step with the same result. -/
theorem halted_step_congr (hresult : b₁.step.1 = b₂.step.1)
    (h : b₁.machine.halted = b₂.machine.halted) :
    b₁.step.2.machine.halted = b₂.step.2.machine.halted := by
  by_cases hhalted : b₁.step.1 = .ok .halted
  · have h₁ : b₁.step.2.machine.halted = true := halted_of_step_eq_halted (Prod.ext hhalted rfl)
    have h₂ : b₂.step.2.machine.halted = true :=
      halted_of_step_eq_halted (Prod.ext (hresult.symm.trans hhalted) rfl)
    rw [h₁, h₂]
  · have hhalted₂ : b₂.step.1 ≠ .ok .halted := by
      rw [← hresult]
      exact hhalted
    rw [halted_step hhalted, halted_step hhalted₂, h]

namespace SameMeaning

/-- The operation in the latch is the same after a fetch. -/
theorem opcode_step (h : SameMeaning b₁ b₂)
    (hopcode : b₁.machine.registers.opcode = b₂.machine.registers.opcode ∨
      b₁.machine.nextFetch? ≠ none) :
    b₁.step.2.machine.registers.opcode = b₂.step.2.machine.registers.opcode := by
  rcases h.machine.nextFetch? with ⟨hnone₁, hnone₂⟩ | ⟨f₁, f₂, hf₁, hf₂, hfetched, -⟩
  · rw [step_of_nextFetch_eq_none hnone₁, step_of_nextFetch_eq_none hnone₂]
    exact hopcode.resolve_right fun hne => hne hnone₁
  · rw [(attempts_of_nextFetch hf₁).opcode, (attempts_of_nextFetch hf₂).opcode, hfetched]

/-- At every point the machines have gone through the same. -/
theorem along (h : SameMeaning b₁ b₂) {n : Nat} (hreads : ReadAlikeFor b₁ b₂ n) :
    Along b₁ b₂ n (b₁.after n) (b₂.after n) := by
  induction n with
  | zero =>
    refine ⟨h, fun a ha => ?_, ⟨rfl, rfl⟩, id, id, fun ho => ho.resolve_right fun hne => hne rfl⟩
    refine ha.resolve_right ?_
    rintro ⟨i, hi, -⟩
    exact absurd hi (Nat.not_lt_zero i)
  | succ n ih =>
    have hn := ih fun i hi => hreads i (Nat.lt_succ_of_lt hi)
    obtain ⟨r, c₁, c₂, hstep₁, hstep₂, hmeaning, hsame⟩ :=
      hn.meaning.step (hreads n (Nat.lt_succ_self n))
    have hresult : (b₁.after n).step.1 = (b₂.after n).step.1 := by
      rw [hstep₁, hstep₂]
    have hfetches : b₂.machine.tally.withFetches (b₂.fetches n) =
        b₂.machine.tally.withFetches (b₁.fetches n) :=
      (b₂.tally_after n).symm.trans hn.tallies.2
    constructor
    case meaning =>
      rw [Bench.after, Bench.after, hstep₁, hstep₂]
      exact hmeaning
    case sameWord =>
      intro a ha
      rw [Bench.after, Bench.after, hstep₁, hstep₂]
      apply hsame a
      rcases ha with hword | ⟨i, hi, hstores⟩
      · exact .inl (hn.sameWord a (.inl hword))
      · rcases Nat.lt_succ_iff_lt_or_eq.mp hi with hlt | rfl
        · exact .inl (hn.sameWord a (.inr ⟨i, hlt, hstores⟩))
        · exact .inr hstores
    case tallies =>
      refine ⟨b₁.tally_after (n + 1), ?_⟩
      rw [b₂.tally_after, fetches, fetches, Tally.withFetches_append, Tally.withFetches_append,
        hfetches]
      exact (hn.meaning.machine.withFetches_nextFetch? _).symm
    case halted =>
      intro hhalted
      exact halted_step_congr hresult (hn.halted hhalted)
    case tracing =>
      intro htracing
      rw [tracing_after, tracing_after, htracing]
    case opcode =>
      intro hopcode
      apply hn.meaning.opcode_step
      by_cases hfetch : (b₁.after n).machine.nextFetch? = none
      · rw [fetches, hfetch, Option.toList_none, List.append_nil] at hopcode
        exact .inl (hn.opcode hopcode)
      · exact .inr hfetch

/-- So every step has the same result. -/
theorem result (h : SameMeaning b₁ b₂) {n : Nat} (hreads : ReadAlikeFor b₁ b₂ n) {i : Nat}
    (hi : i < n) : (b₁.after i).step.1 = (b₂.after i).step.1 := by
  have hpoint := h.along fun j hj => hreads j (Nat.lt_trans hj hi)
  obtain ⟨r, c₁, c₂, hstep₁, hstep₂, -⟩ := hpoint.meaning.step (hreads i hi)
  rw [hstep₁, hstep₂]

/-- Two machines with the same accumulator, program counter and console, and with memories that mean the
same, go through the same, as long as the first reads no index as data at which the memories differ.
Every step has the same result, errors and what they name included; the accumulator, the program counter,
the console and its output are the same at every point, the tallies and the flags grow alike, and so it is
with whole runs.

Only the latch may differ, though not in the operation, and words that differed before and have not been
stored since. -/
theorem goes_along (h : SameMeaning b₁ b₂) :
    (∀ n, ReadAlikeFor b₁ b₂ n → Along b₁ b₂ n (b₁.after n) (b₂.after n) ∧
      ∀ i < n, (b₁.after i).step.1 = (b₂.after i).step.1) ∧
    ∀ patience limit, ReadAlikeFor b₁ b₂ (b₁.begun (limit.getD patience)) →
      Option.Rel (Agree (Along b₁ b₂ (b₁.begun (limit.getD patience))))
        (b₁.run patience limit) (b₂.run patience limit) := by
  constructor
  · intro n hreads
    exact ⟨h.along hreads, fun i hi => h.result hreads hi⟩
  · intro patience limit hreads
    refine run_of_results (fun j hj => h.result hreads hj) (h.along hreads) ?_
    intro c₁ c₂ steps hc
    exact finish_of_console_eq hc.meaning.console
      (fun k log₁ log₂ => { hc with meaning := ⟨hc.meaning.machine, rfl⟩ }) steps

/-- The first program loads a word, stores it as its last instruction, and halts by it; the second one
has the odd addresses in place of the even ones, another operand field under NOP, and under the
instruction that is replaced. -/
theorem goes_along_of_odd_addresses :
    let even : Bench TokenQueue := {
      machine := { registers := .powerOn, memory := ⟨#[0x1008, 0x2006, 0xB000, 0xB111, 0xF000]⟩ }
      console := { tokens := [], sink := {} } }
    let odd : Bench TokenQueue := {
      machine := { registers := .powerOn, memory := ⟨#[0x1009, 0x2007, 0xBFFF, 0xB222, 0xF000]⟩ }
      console := { tokens := [], sink := {} } }
    even.SameMeaning odd ∧ ReadAlikeFor even odd 4 ∧ (even.after 1).Stores 3 ∧
    SameWord 3 (even.after 4) (odd.after 4) ∧
    (even.run 9 none).map (·.1.toOption) = some (some 4) ∧
    Option.Rel (Agree (Along even odd 4)) (even.run 9 none) (odd.run 9 none) := by
  intro even odd
  have hmemory : even.machine.memory.SameMeaning odd.machine.memory := by
    refine ⟨rfl, fun i => ?_⟩
    rcases Nat.lt_or_ge i 5 with hlt | hge
    · have hwords : ∀ i < 5, even.machine.memory.words[i]?.map Word.decode =
          odd.machine.memory.words[i]?.map Word.decode := by
        decide
      exact hwords i hlt
    · have hnone : even.machine.memory.words[i]? = none := Array.getElem?_eq_none hge
      have hnone' : odd.machine.memory.words[i]? = none := Array.getElem?_eq_none hge
      rw [hnone, hnone']
  have hsame : even.SameMeaning odd := ⟨⟨rfl, rfl, hmemory⟩, rfl⟩
  have hdata : ∀ i < 4, (even.after i).datum? = none ∨ (even.after i).datum? = some 4 := by
    decide +kernel
  have hword : ∀ i < 4, (even.after i).machine.memory.words[4]? =
      (odd.after i).machine.memory.words[4]? := by
    decide +kernel
  have hreads : ReadAlikeFor even odd 4 := by
    intro i hi a ha
    rcases hdata i hi with hnone | hfour
    · rw [hnone] at ha
      cases ha
    · rw [hfour] at ha
      cases ha
      exact hword i hi
  have hrunning : (even.after 1).step.1.toOption = some .running := by
    decide +kernel
  have hstores : (even.after 1).Stores 3 := by
    refine ⟨?_, by decide +kernel⟩
    rcases hstep : (even.after 1).step.1 with e | st <;> rw [hstep] at hrunning <;> cases hrunning
    rfl
  have hbegun : even.begun 9 = 4 := by
    decide +kernel
  obtain ⟨hpoints, hruns⟩ := goes_along hsame
  have hrun := hruns 9 none
  rw [Option.getD_none, hbegun] at hrun
  exact ⟨hsame, hreads, hstores, (hpoints 4 hreads).1.sameWord 3 (.inr ⟨1, by decide, hstores⟩),
    by decide +kernel, hrun hreads⟩

end SameMeaning

end Bench

end WordMachine
