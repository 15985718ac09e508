import WordMachine.Proofs.Fault
import WordMachine.Proofs.Simulation

/-!
# Words that mean the same

Some bits of a word do not count when it is executed: the lowest bit of an address, and the whole operand
field of an instruction that takes none.  Words that differ in such bits decode to the same instruction,
and two memories have the `Memory.SameMeaning` when they are of one size and the words at each index do so.

A machine cannot tell such memories apart as long as it only executes what is in them.  It can when it
reads a word as data, that is as a value, as a divisor or to write it out.  So two machines that agree in the
rest, and whose next instruction reads the same word as data, if it reads one, do the same next
(`Machine.Executes.sameMeaning`, `Bench.SameMeaning.step`).  The memories keep their meaning then, and come
closer to each other: words that were the same stay so, and a word that is stored is the same in both.
-/

namespace WordMachine

/-! ### Memories -/

/-- The memories have the same size, and at each index words that decode to the same instruction. -/
structure Memory.SameMeaning (m₁ m₂ : Memory) : Prop where
  capacity : m₁.capacity = m₂.capacity
  decode : ∀ i : WordIndex, m₁.words[i]?.map Word.decode = m₂.words[i]?.map Word.decode

namespace Memory

variable {m₁ m₂ : Memory}

theorem SameMeaning.refl (m : Memory) : m.SameMeaning m :=
  ⟨rfl, fun _ => rfl⟩

/-- Where the words were the same, or one and the same word has been stored, they are the same. -/
theorem getElem?_set_congr (hcapacity : m₁.capacity = m₂.capacity) (a : WordIndex) (w : Word)
    {j : WordIndex} (hj : m₁.words[j]? = m₂.words[j]? ∨ a = j) :
    (m₁.words.setIfInBounds a w)[j]? = (m₂.words.setIfInBounds a w)[j]? := by
  have hsize : m₁.words.size = m₂.words.size := hcapacity
  rw [Array.getElem?_setIfInBounds, Array.getElem?_setIfInBounds, hsize]
  split
  · rfl
  · next hne => exact hj.resolve_right hne

/-- The same word may be stored at the same index. -/
theorem SameMeaning.set (h : m₁.SameMeaning m₂) (a : WordIndex) (w : Word) :
    SameMeaning ⟨m₁.words.setIfInBounds a w⟩ ⟨m₂.words.setIfInBounds a w⟩ := by
  have hsize : m₁.words.size = m₂.words.size := h.capacity
  constructor
  · unfold Memory.capacity
    rw [Array.size_setIfInBounds, Array.size_setIfInBounds, hsize]
  · intro i
    rw [Array.getElem?_setIfInBounds, Array.getElem?_setIfInBounds, hsize]
    split
    · rfl
    · exact h.decode i

end Memory

/-! ### Instructions -/

namespace Machine

/-- The machines agree in the accumulator and the program counter, and their memories mean the same. -/
structure SameMeaning (m₁ m₂ : Machine) : Prop where
  accumulator : m₁.accumulator = m₂.accumulator
  pc : m₁.pc = m₂.pc
  memory : m₁.memory.SameMeaning m₂.memory

/-- Words that were the same before the instruction, or that it stored, are the same after it. -/
def Settles (i : Instruction) (m₁ m₂ m₁' m₂' : Machine) : Prop :=
  ∀ j, m₁.memory.words[j]? = m₂.memory.words[j]? ∨ i.stored? = some j →
    m₁'.memory.words[j]? = m₂'.memory.words[j]?

namespace SameMeaning

variable {m₁ m₂ : Machine}

/-- The fetch of words may differ in the latch and be counted apart. -/
theorem fetch (h : SameMeaning m₁ m₂) (w₁ w₂ : Word) : SameMeaning (m₁.fetch w₁) (m₂.fetch w₂) :=
  ⟨h.accumulator, h.pc, h.memory⟩

theorem setAccumulator (h : SameMeaning m₁ m₂) (x : Int32) :
    SameMeaning (m₁.setAccumulator x) (m₂.setAccumulator x) :=
  ⟨rfl, h.pc, h.memory⟩

theorem advancePc (h : SameMeaning m₁ m₂) : SameMeaning m₁.advancePc m₂.advancePc :=
  ⟨h.accumulator, congrArg WordIndex.next h.pc, h.memory⟩

theorem putWord (h : SameMeaning m₁ m₂) (a : WordIndex) (w : Word) :
    SameMeaning (m₁.putWord a w) (m₂.putWord a w) :=
  ⟨h.accumulator, h.pc, h.memory.set a w⟩

theorem jump (h : SameMeaning m₁ m₂) (taken : Bool) (a : WordIndex) :
    SameMeaning (m₁.jump taken a) (m₂.jump taken a) := by
  cases taken with
  | true => exact ⟨h.accumulator, rfl, h.memory⟩
  | false => exact ⟨h.accumulator, congrArg WordIndex.next h.pc, h.memory⟩

end SameMeaning

/-- Both machines find a word to fetch, and the words mean the same, or neither finds one. -/
theorem SameMeaning.words_pc {m₁ m₂ : Machine} (h : SameMeaning m₁ m₂) :
    (m₁.memory.capacity ≤ m₁.pc ∧ m₂.memory.capacity ≤ m₂.pc) ∨
      ∃ w₁ w₂, m₁.memory.words[m₁.pc]? = some w₁ ∧ m₂.memory.words[m₂.pc]? = some w₂ ∧
        w₂.decode = w₁.decode := by
  have hdecode := h.memory.decode m₁.pc
  cases hw₁ : m₁.memory.words[m₁.pc]? with
  | none =>
    have hle : m₁.memory.capacity ≤ m₁.pc := Array.getElem?_eq_none_iff.mp hw₁
    left
    rw [← h.memory.capacity, ← h.pc]
    exact ⟨hle, hle⟩
  | some w₁ =>
    rw [hw₁, h.pc, Option.map_some] at hdecode
    obtain ⟨w₂, hw₂, hmeaning⟩ := Option.map_eq_some_iff.mp hdecode.symm
    exact .inr ⟨w₁, w₂, rfl, hw₂, hmeaning⟩

/-- A jump stores nothing. -/
theorem memory_jump (m : Machine) (taken : Bool) (a : WordIndex) :
    (m.jump taken a).memory = m.memory := by
  rw [jump]
  split <;> rfl

/-- An instruction that succeeds on one of the machines succeeds on the other, if it reads the same as
data, with the same effect on the accumulator, the program counter and the console. -/
theorem Executes.sameMeaning {κ : Type} [Console κ] {m₁ m₂ m₁' : Machine} {k k' : κ}
    {i : Instruction} (h : m₁.Executes k i m₁' k') (hm : SameMeaning m₁ m₂)
    (hreads : ReadsAlike i m₁ m₂) :
    ∃ m₂', m₂.Executes k i m₂' k' ∧ SameMeaning m₁' m₂' ∧ Settles i m₁ m₂ m₁' m₂' := by
  have hkept {j : WordIndex} (hj : m₁.memory.words[j]? = m₂.memory.words[j]? ∨
      (none : Option WordIndex) = some j) : m₁.memory.words[j]? = m₂.memory.words[j]? :=
    hj.resolve_right nofun
  have hput {a j : WordIndex} {w : Word} (hj : m₁.memory.words[j]? = m₂.memory.words[j]? ∨
      some a = some j) : (m₁.putWord a w).memory.words[j]? = (m₂.putWord a w).memory.words[j]? :=
    Memory.getElem?_set_congr hm.memory.capacity a w (hj.imp_right Option.some.inj)
  have hjumped {taken : Bool} {a j : WordIndex} (hj : m₁.memory.words[j]? = m₂.memory.words[j]? ∨
      (none : Option WordIndex) = some j) :
      (m₁.jump taken a).memory.words[j]? = (m₂.jump taken a).memory.words[j]? := by
    rw [memory_jump, memory_jump]
    exact hkept hj
  have hvalue {o : Operand} {w : Word} (ho : i.operand? = some o)
      (hw : m₁.operandWord o = some w) : m₂.operandWord o = some w :=
    (hreads.operandWord ho).symm.trans hw
  have hinside {a : WordIndex} (ha : a < m₁.memory.capacity) : a < m₂.memory.capacity :=
    hm.memory.capacity ▸ ha
  have hacc := hm.accumulator
  cases h with
  | endMark => exact ⟨_, .endMark, hm.advancePc, fun _ => hkept⟩
  | nop => exact ⟨_, .nop, hm.advancePc, fun _ => hkept⟩
  | load hw =>
    exact ⟨_, .load (hvalue rfl hw), (hm.setAccumulator _).advancePc, fun _ => hkept⟩
  | store hlt =>
    rw [hacc]
    exact ⟨_, .store (hinside hlt), (hm.putWord _ _).advancePc, fun _ => hput⟩
  | read hr hlt =>
    exact ⟨_, .read hr (hinside hlt), (hm.putWord _ _).advancePc, fun _ => hput⟩
  | write hw hwr =>
    exact ⟨_, .write ((hreads _ rfl).symm.trans hw) hwr, hm.advancePc, fun _ => hkept⟩
  | add hw =>
    rw [hacc]
    exact ⟨_, .add (hvalue rfl hw), (hm.setAccumulator _).advancePc, fun _ => hkept⟩
  | sub hw =>
    rw [hacc]
    exact ⟨_, .sub (hvalue rfl hw), (hm.setAccumulator _).advancePc, fun _ => hkept⟩
  | mul hw =>
    rw [hacc]
    exact ⟨_, .mul (hvalue rfl hw), (hm.setAccumulator _).advancePc, fun _ => hkept⟩
  | div hw hz =>
    rw [hacc]
    exact ⟨_, .div (hvalue rfl hw) hz, (hm.setAccumulator _).advancePc, fun _ => hkept⟩
  | mod hw hz =>
    rw [hacc]
    exact ⟨_, .mod (hvalue rfl hw) hz, (hm.setAccumulator _).advancePc, fun _ => hkept⟩
  | neg =>
    rw [hacc]
    exact ⟨_, .neg, (hm.setAccumulator _).advancePc, fun _ => hkept⟩
  | jmp => exact ⟨_, .jmp, hm.jump true _, fun _ => hjumped⟩
  | jneg =>
    rw [hacc]
    exact ⟨_, .jneg, hm.jump _ _, fun _ => hjumped⟩
  | jzero =>
    rw [hacc]
    exact ⟨_, .jzero, hm.jump _ _, fun _ => hjumped⟩
  | halt => exact ⟨_, .halt, ⟨hm.accumulator, hm.pc, hm.memory⟩, fun _ => hkept⟩

end Machine

/-! ### Steps -/

namespace Bench

section Words

variable {κ : Type}

/-- The index that the next step reads as data. -/
def datum? (b : Bench κ) : Option WordIndex :=
  b.machine.nextFetch?.bind fun f => f.word.decode.datum?

/-- The index at which the next step stores a word, if it succeeds. -/
def stored? (b : Bench κ) : Option WordIndex :=
  b.machine.nextFetch?.bind fun f => f.word.decode.stored?

theorem datum?_of_words {b : Bench κ} {w : Word}
    (h : b.machine.memory.words[b.machine.pc]? = some w) : b.datum? = w.decode.datum? := by
  rw [datum?, Machine.nextFetch?, h]
  rfl

theorem stored?_of_words {b : Bench κ} {w : Word}
    (h : b.machine.memory.words[b.machine.pc]? = some w) : b.stored? = w.decode.stored? := by
  rw [stored?, Machine.nextFetch?, h]
  rfl

/-- The words at the index are the same on both benches. -/
def SameWord (a : WordIndex) (b₁ b₂ : Bench κ) : Prop :=
  b₁.machine.memory.words[a]? = b₂.machine.memory.words[a]?

/-- If the next step of the first bench reads an index as data, the words there are the same. -/
def ReadsAlike (b₁ b₂ : Bench κ) : Prop :=
  ∀ a, b₁.datum? = some a → SameWord a b₁ b₂

/-- The machines agree in the accumulator and the program counter, and the benches in their consoles; and
the memories mean the same. -/
structure SameMeaning (b₁ b₂ : Bench κ) : Prop where
  machine : b₁.machine.SameMeaning b₂.machine
  console : b₁.console = b₂.console

end Words

variable {κ : Type} [Console κ]

/-- The next step stores a word at the index. -/
def Stores (b : Bench κ) (a : WordIndex) : Prop :=
  b.step.1 = .ok .running ∧ b.stored? = some a

/-- What a step comes to on two benches that mean the same. -/
structure StepsAlike (b₁ b₂ c₁ c₂ : Bench κ) : Prop where
  meaning : SameMeaning c₁ c₂
  /-- Words that were the same stay so, and a word that is stored is the same. -/
  sameWord : ∀ a, SameWord a b₁ b₂ ∨ b₁.Stores a → SameWord a c₁ c₂

/-- If a step fails on both benches, it leaves behind what means the same. -/
theorem StepsAlike.of_failed {b₁ b₂ c₁ c₂ : Bench κ} {e : Failure} (hstep : b₁.step.1 = .error e)
    (hc : SameMeaning c₁ c₂) (h₁ : c₁.machine.memory = b₁.machine.memory)
    (h₂ : c₂.machine.memory = b₂.machine.memory) : StepsAlike b₁ b₂ c₁ c₂ := by
  refine ⟨hc, fun a ha => ?_⟩
  have hword : SameWord a b₁ b₂ := by
    refine ha.resolve_right fun hstores => ?_
    rw [hstores.1] at hstep
    cases hstep
  unfold SameWord at hword ⊢
  rw [h₁, h₂]
  exact hword

/-- A step has the same result on benches that mean the same, if both machines read the same as data. -/
theorem SameMeaning.step {b₁ b₂ : Bench κ} (h : SameMeaning b₁ b₂) (hreads : ReadsAlike b₁ b₂) :
    Agree (StepsAlike b₁ b₂) b₁.step b₂.step := by
  obtain ⟨hmachine, hconsole⟩ := h
  rcases hmachine.words_pc with ⟨hle₁, hle₂⟩ | ⟨w₁, w₂, hw₁, hw₂, hdecode⟩
  · -- there is no word to fetch, on neither of them
    have hstep₁ := step_of_le hle₁
    have hstep₂ := step_of_le hle₂
    have houtside : b₂.machine.memory.outOfBounds b₂.machine.pc =
        b₁.machine.memory.outOfBounds b₁.machine.pc := by
      rw [Memory.outOfBounds, Memory.outOfBounds, hmachine.memory.capacity, hmachine.pc]
    rw [houtside] at hstep₂
    exact ⟨_, b₁, b₂, hstep₁, hstep₂,
      .of_failed (congrArg Prod.fst hstep₁) ⟨hmachine, hconsole⟩ rfl rfl⟩
  have hfetched := hmachine.fetch w₁ w₂
  have hdata : Machine.ReadsAlike w₁.decode (b₁.machine.fetch w₁) (b₂.machine.fetch w₂) := by
    intro a ha
    rw [← datum?_of_words hw₁] at ha
    exact hreads a ha
  rcases hstep₁ : b₁.step with ⟨e | st, c₁⟩
  · rcases step_eq_error_iff.mp hstep₁ with ⟨hle, -⟩ | ⟨w, hw, hfault, hfetch, -⟩
    · rw [Array.getElem?_eq_none hle] at hw₁
      cases hw₁
    -- a failing instruction changes nothing after the fetch
    cases hw.symm.trans hw₁
    have hfault₂ := hfault.congr hfetched.pc hfetched.memory.capacity hdata
    rw [hconsole, ← hdecode] at hfault₂
    let c₂ : Bench κ :=
      ⟨b₂.machine.fetch w₂, c₁.console, noteFetch b₂.log (b₂.machine.fetch w₂) w₂⟩
    have hstep₂ : b₂.step = (.error e, c₂) :=
      step_eq_error_iff.mpr (.inr ⟨w₂, hw₂, hfault₂, rfl, rfl⟩)
    have hmemory : c₁.machine.memory = b₁.machine.memory := by
      rw [hfetch]
      rfl
    have hmeaning : SameMeaning c₁ c₂ := by
      refine ⟨?_, rfl⟩
      rw [hfetch]
      exact hfetched
    exact ⟨_, c₁, c₂, rfl, hstep₂,
      .of_failed (congrArg Prod.fst hstep₁) hmeaning hmemory rfl⟩
  · obtain ⟨w, hw, hexec, hstatus, -⟩ := step_eq_ok_iff.mp hstep₁
    cases hw.symm.trans hw₁
    obtain ⟨m₂', hexec₂, hm', hsettles⟩ := hexec.sameMeaning hfetched hdata
    rw [hconsole, ← hdecode] at hexec₂
    rw [← hdecode] at hstatus
    let c₂ : Bench κ := ⟨m₂', c₁.console, noteFetch b₂.log (b₂.machine.fetch w₂) w₂⟩
    have hstep₂ : b₂.step = (.ok st, c₂) :=
      step_eq_ok_iff.mpr ⟨w₂, hw₂, hexec₂, hstatus, rfl⟩
    refine ⟨_, c₁, c₂, rfl, hstep₂, ⟨hm', rfl⟩, fun a ha => ?_⟩
    refine hsettles a (ha.imp_right fun hstores => ?_)
    rw [← stored?_of_words hw₁]
    exact hstores.2

end Bench

end WordMachine
