import WordMachine.Proofs.Step

/-!
# The reference machine

The reference machine is the instruction set written down with exact integers and nothing else.
Its words and addresses are natural numbers, its accumulator is an integer, and an instruction is
the number `w` of the word fetched: the operation is `w / 4096`, the address is `w % 4096 / 2`, and
the mode bit is bit `11`.  There are no machine words here, no decoding and no division that could
wrap around.  What an instruction exchanges with a console is written beside it as an `Exchange`.

A machine is read as a state of the reference machine by `Machine.exact`, which forgets nothing
(`Machine.exact_injective`).  The main statement, `Bench.step_eq_ok_iff_reference`, says that a step
of a bench succeeds exactly when the reference machine can execute the word fetched and the console
can do its part of the exchange, and that the machine left behind is then the one that the reference
machine comes to.
-/

namespace WordMachine

namespace Reference

/-! ### States -/

/-- A state of the reference machine. -/
structure State where
  accumulator : Int
  pc : Nat
  memory : List Nat
  /-- The last word fetched, and its operation and operand field. -/
  ir : Nat
  opcode : Nat
  operand : Nat
  tally : Tally
  tracing : Bool
  halted : Bool
deriving DecidableEq, Repr

/-- The address in a word. -/
def address (w : Nat) : Nat :=
  w % 4096 / 2

/-- The signed number of thirty-two bits that represents an integer. -/
def wrap (x : Int) : Int :=
  x.bmod 4294967296

/-- The tally after one more instruction with a given operation. -/
def count (t : Tally) (op : Nat) : Tally :=
  { t with
    instructions := t.instructions + 1
    data := t.data + if op = 1 ∨ op = 2 then 1 else 0
    io := t.io + if op = 3 ∨ op = 4 then 1 else 0
    arithmetic := t.arithmetic + if 5 ≤ op ∧ op ≤ 10 then 1 else 0
    jump := t.jump + if 12 ≤ op ∧ op ≤ 14 then 1 else 0
    other := t.other + if op = 0 ∨ op = 11 ∨ op = 15 then 1 else 0 }

/-- The tally after one more jump. -/
def countJump (t : Tally) (taken : Bool) : Tally :=
  { t with
    jumpsTaken := t.jumpsTaken + if taken then 1 else 0
    jumpsNotTaken := t.jumpsNotTaken + if taken then 0 else 1 }

namespace State

/-- The state with the word `w` fetched. -/
def fetch (s : State) (w : Nat) : State :=
  { s with ir := w, opcode := w / 4096, operand := w % 4096, tally := count s.tally (w / 4096) }

/-- The state that goes on with the next word. -/
def next (s : State) : State :=
  { s with pc := s.pc + 1 }

/-- The state with another accumulator. -/
def set (s : State) (x : Int) : State :=
  { s with accumulator := x }

/-- The state with another word at an address. -/
def put (s : State) (a n : Nat) : State :=
  { s with memory := s.memory.set a n }

/-- The state after a jump to `a`, if it is taken, else to the next word. -/
def jump (s : State) (taken : Bool) (a : Nat) : State :=
  { s with pc := if taken then a else s.pc + 1, tally := countJump s.tally taken }

/-- The value with which LOAD and the binary arithmetic operations work: the eleven low bits of the
word if bit `11` is set, else the word of memory at the address, if there is one. -/
def source (s : State) (w : Nat) : Option Nat :=
  if w / 2048 % 2 = 1 then some (w % 2048) else s.memory[address w]?

end State

/-! ### Execution -/

/-- What an instruction exchanges with a console. -/
inductive Exchange where
  | nothing
  /-- A token is taken. -/
  | token (text : String)
  /-- A value is written out. -/
  | value (n : Nat)
deriving DecidableEq, Repr

/-- The console `k` does its part of an exchange and becomes `k'`: it is left alone, or asked for
one token, or given one value. -/
def Exchange.Performed {κ : Type} [Console κ] (k k' : κ) : Exchange → Prop
  | nothing => k' = k
  | token text => Console.readToken k = (.ok (some text), k')
  | value n => ∃ w : Word, w.toNat = n ∧ Console.writeValue k w = (.ok (), k')

/-- The exact division of `n` by `v` with quotient `q` and remainder `r`, rounded toward zero.  A
divisor comes from a word, so the quotient is never larger than the dividend. -/
structure Division (n : Int) (v : Nat) (q r : Int) : Prop where
  one_le : 1 ≤ v
  le_word : v ≤ 65535
  exact : n = q * v + r
  remainder_lt : r.natAbs < v
  sign : r = 0 ∨ r.sign = n.sign

/-- `Executes s w x s'`: in the state `s`, with the word `w` fetched, the reference machine executes
`w`, exchanges `x` with the console and comes to `s'`. -/
inductive Executes (s : State) (w : Nat) : Exchange → State → Prop where
  | endMark (op : w / 4096 = 0) : Executes s w .nothing s.next
  | load {v} (op : w / 4096 = 1) (value : s.source w = some v) :
      Executes s w .nothing (s.set v).next
  | store (op : w / 4096 = 2) (inside : address w < s.memory.length) :
      Executes s w .nothing (s.put (address w) (s.accumulator % 65536).toNat).next
  | read {t} (op : w / 4096 = 3) (inside : address w < s.memory.length) :
      Executes s w (.token t) (s.put (address w) ((Word.ofToken t).toNat % 4096)).next
  | write {n} (op : w / 4096 = 4) (word : s.memory[address w]? = some n) :
      Executes s w (.value n) s.next
  | add {v} (op : w / 4096 = 5) (value : s.source w = some v) :
      Executes s w .nothing (s.set (wrap (s.accumulator + v))).next
  | sub {v} (op : w / 4096 = 6) (value : s.source w = some v) :
      Executes s w .nothing (s.set (wrap (s.accumulator - v))).next
  | mul {v} (op : w / 4096 = 7) (value : s.source w = some v) :
      Executes s w .nothing (s.set (wrap (s.accumulator * v))).next
  | div {v q r} (op : w / 4096 = 8) (value : s.source w = some v)
      (division : Division s.accumulator v q r) : Executes s w .nothing (s.set q).next
  | mod {v q r} (op : w / 4096 = 9) (value : s.source w = some v)
      (division : Division s.accumulator v q r) : Executes s w .nothing (s.set r).next
  | neg (op : w / 4096 = 10) : Executes s w .nothing (s.set (wrap (-s.accumulator))).next
  | nop (op : w / 4096 = 11) : Executes s w .nothing s.next
  | jmp (op : w / 4096 = 12) : Executes s w .nothing (s.jump true (address w))
  | jneg (op : w / 4096 = 13) :
      Executes s w .nothing (s.jump (s.accumulator < 0) (address w))
  | jzero (op : w / 4096 = 14) :
      Executes s w .nothing (s.jump (s.accumulator = 0) (address w))
  | halt (op : w / 4096 = 15) : Executes s w .nothing { s with halted := true }

/-- Rounding toward zero makes an exact division by a word that is not zero. -/
theorem division_tdiv (n : Int) {w : Word} (h : w ≠ 0) :
    Division n w.toNat (n.tdiv w.toNat) (n.tmod w.toNat) where
  one_le := by
    rw [Nat.one_le_iff_ne_zero]
    exact fun hz => h (UInt16.toNat_inj.mp hz)
  le_word := Nat.le_of_lt_succ w.toNat_lt
  exact := (Int.tdiv_mul_add_tmod n w.toNat).symm
  remainder_lt := by
    rw [Int.natAbs_tmod, Int.natAbs_natCast]
    exact Nat.mod_lt _ (Nat.pos_of_ne_zero fun hz => h (UInt16.toNat_inj.mp hz))
  sign := by
    have hsign := Int.sign_tmod n w.toNat
    split at hsign
    · exact .inl (Int.sign_eq_zero_iff_zero.mp hsign)
    · exact .inr hsign

/-- There is no other exact division. -/
theorem Division.eq_tdiv {n q r : Int} {v : Nat} (h : Division n v q r) :
    n.tdiv v = q ∧ n.tmod v = r := by
  have hv : (v : Int) ≠ 0 := by
    have := h.one_le
    omega
  have hsum : r + v * q = n := by
    rw [h.exact, Int.mul_comm, Int.add_comm]
  have hlt := h.remainder_lt
  -- the remainder lies on the same side of zero as the dividend
  rcases Int.le_total 0 n with hn | hn
  · have hr : 0 ≤ r := by
      rcases h.sign with hr | hr
      · exact Int.le_of_eq hr.symm
      · rw [← Int.sign_nonneg_iff, hr]
        exact Int.sign_nonneg_iff.mpr hn
    refine (Int.tdiv_tmod_unique hn hv).mpr ⟨hsum, hr, ?_⟩
    omega
  · have hr : r ≤ 0 := by
      rcases h.sign with hr | hr
      · exact Int.le_of_eq hr
      · rw [← Int.sign_nonpos_iff, hr]
        exact Int.sign_nonpos_iff.mpr hn
    refine (Int.tdiv_tmod_unique' hn hv).mpr ⟨hsum, ?_, hr⟩
    omega

/-- A word by which there is an exact division is not zero. -/
theorem Division.word_ne_zero {n q r : Int} {w : Word} (h : Division n w.toNat q r) : w ≠ 0 := by
  rintro rfl
  exact absurd h.one_le (by decide)

end Reference

/-! ### Machines as states of the reference machine -/

namespace Machine

/-- A machine as a state of the reference machine. -/
def exact (m : Machine) : Reference.State where
  accumulator := m.accumulator.toInt
  pc := m.pc
  memory := m.memory.words.toList.map UInt16.toNat
  ir := m.registers.ir.toNat
  opcode := m.registers.opcode.code
  operand := m.registers.operand.toNat
  tally := m.tally
  tracing := m.tracing
  halted := m.halted

/-- Reading a machine as a state of the reference machine forgets nothing. -/
theorem exact_injective {m m' : Machine} (h : m.exact = m'.exact) : m = m' := by
  obtain ⟨⟨acc, pc, ir, op, operand⟩, ⟨words⟩, tally, tracing, halted⟩ := m
  obtain ⟨⟨acc', pc', ir', op', operand'⟩, ⟨words'⟩, tally', tracing', halted'⟩ := m'
  simp only [exact, accumulator, Machine.pc, Reference.State.mk.injEq] at h
  obtain ⟨hacc, rfl, hwords, hir, hop, hoperand, rfl, rfl, rfl⟩ := h
  have hop' : op = op' := by
    rw [← Opcode.ofCode_code op, hop, Opcode.ofCode_code]
  have hwords' : words = words' :=
    Array.toList_inj.mp ((List.map_inj_right fun _ _ => UInt16.toNat_inj.mp).mp hwords)
  rw [Int32.toInt_inj.mp hacc, UInt16.toNat_inj.mp hir, UInt16.toNat_inj.mp hoperand, hop',
    hwords']

@[simp] theorem exact_memory_getElem? (m : Machine) (a : Nat) :
    m.exact.memory[a]? = (m.memory.words[a]?).map UInt16.toNat := by
  simp [exact]

@[simp] theorem length_exact_memory (m : Machine) : m.exact.memory.length = m.memory.capacity := by
  simp [exact, Memory.capacity]

/-- A fetch is a fetch of the reference machine. -/
theorem exact_fetch (m : Machine) (w : Word) : (m.fetch w).exact = m.exact.fetch w.toNat := by
  have htally : m.tally.record w.opcode = Reference.count m.tally (w.toNat / 4096) := by
    rw [← w.code_opcode]
    cases w.opcode <;> rfl
  simp only [exact, fetch, Registers.latch, Reference.State.fetch, htally, w.code_opcode,
    w.toNat_operandField]
  rfl

/-! ### Operands and effects, exactly -/

/-- The source of the reference machine is the word of the operand, if the operation has a mode. -/
theorem source_eq_some_iff {m : Machine} {w : Word} {n : Nat} (hmode : w.opcode.hasMode = true) :
    m.exact.source w.toNat = some n ↔ ∃ v : Word, m.operandWord w.operand = some v ∧ v.toNat = n := by
  rw [Reference.State.source]
  by_cases h : w.isLiteral = true
  · rw [if_pos (w.isLiteral_iff.mp h), Word.operand_of_isLiteral hmode h, operandWord,
      ← w.toNat_literal]
    simp
  · rw [if_neg (fun h' => h (w.isLiteral_iff.mpr h')),
      Word.operand_of_not_isLiteral (Bool.eq_false_iff.mpr h), operandWord, exact_memory_getElem?,
      Reference.address, ← w.target_eq]
    exact Option.map_eq_some_iff

/-- The address in a word lies inside the memory of the reference machine exactly if the word it
points to lies inside memory. -/
theorem address_lt_iff {m : Machine} {w : Word} :
    Reference.address w.toNat < m.exact.memory.length ↔ w.target < m.memory.capacity := by
  rw [length_exact_memory, Reference.address, ← w.target_eq]

/-- A new accumulator. -/
theorem exact_set {m : Machine} {x : Int32} {n : Int} (h : x.toInt = n) :
    (m.setAccumulator x).advancePc.exact = (m.exact.set n).next := by
  rw [← h]
  rfl

/-- A new word at the address of a word. -/
theorem exact_put {m : Machine} {w u : Word} {n : Nat} (h : u.toNat = n) :
    (m.putWord w.target u).advancePc.exact =
      (m.exact.put (Reference.address w.toNat) n).next := by
  rw [← h, Reference.address, ← w.target_eq]
  simp [exact, putWord, Reference.State.put, Reference.State.next, accumulator, advancePc, setPc,
    pc, WordIndex.next, List.map_set]

/-- A jump to the address of a word. -/
theorem exact_jump {m : Machine} {w : Word} {taken : Bool} :
    (m.jump taken w.target).exact = m.exact.jump taken (Reference.address w.toNat) := by
  rw [Reference.address, ← w.target_eq]
  cases taken <;> rfl

/-! ### Arithmetic, exactly -/

theorem toInt_add_extend (x : Int32) (w : Word) :
    (x + extend w).toInt = Reference.wrap (x.toInt + w.toNat) := by
  rw [Int32.toInt_add, toInt_extend]
  rfl

theorem toInt_sub_extend (x : Int32) (w : Word) :
    (x - extend w).toInt = Reference.wrap (x.toInt - w.toNat) := by
  rw [Int32.toInt_sub, toInt_extend]
  rfl

theorem toInt_mul_extend (x : Int32) (w : Word) :
    (x * extend w).toInt = Reference.wrap (x.toInt * w.toNat) := by
  rw [Int32.toInt_mul, toInt_extend]
  rfl

/-- The quotient and the remainder of the accumulator by a word make an exact division. -/
theorem division_extend (x : Int32) {w : Word} (h : w ≠ 0) :
    Reference.Division x.toInt w.toNat (x / extend w).toInt (x % extend w).toInt := by
  rw [toInt_div_extend, toInt_mod_extend]
  exact Reference.division_tdiv x.toInt h

/-- There is no other exact division of the accumulator by a word. -/
theorem toInt_of_division {x : Int32} {w : Word} {q r : Int}
    (h : Reference.Division x.toInt w.toNat q r) :
    (x / extend w).toInt = q ∧ (x % extend w).toInt = r := by
  rw [toInt_div_extend, toInt_mod_extend]
  exact h.eq_tdiv

/-! ### Simulation, both ways -/

/-- A rule by which an instruction succeeds is a rule of the reference machine. -/
theorem Executes.exact {κ : Type} [Console κ] {m m' : Machine} {k k' : κ} {w : Word}
    (h : m.Executes k w.decode m' k') :
    ∃ x, Reference.Executes m.exact w.toNat x m'.exact ∧ x.Performed k k' := by
  have hcode := w.code_opcode.symm
  have hsource {v : Word} (hmode : w.opcode.hasMode = true)
      (hv : m.operandWord w.operand = some v) : m.exact.source w.toNat = some v.toNat :=
    (source_eq_some_iff hmode).mpr ⟨v, hv, rfl⟩
  rw [Word.decode] at h
  -- the operation of the word selects one rule on either side
  cases ho : w.opcode <;> rw [ho] at h hcode
  case endMark =>
    cases h
    exact ⟨.nothing, .endMark hcode, rfl⟩
  case load =>
    cases h with | @load _ v hv =>
    refine ⟨.nothing, ?_, rfl⟩
    rw [exact_set (toInt_extend v)]
    exact .load hcode (hsource (congrArg Opcode.hasMode ho) hv)
  case store =>
    cases h with | store hlt =>
    refine ⟨.nothing, ?_, rfl⟩
    rw [exact_put (toNat_truncate m.accumulator)]
    exact .store hcode (address_lt_iff.mpr hlt)
  case read =>
    cases h with | @read _ token _ hr hlt =>
    refine ⟨.token token, ?_, hr⟩
    rw [exact_put (toNat_inputWord token)]
    exact .read hcode (address_lt_iff.mpr hlt)
  case write =>
    cases h with | @write _ v _ hv hwr =>
    refine ⟨.value v.toNat, .write hcode ?_, v, rfl, hwr⟩
    rw [exact_memory_getElem?, Reference.address, ← w.target_eq, hv]
    rfl
  case add =>
    cases h with | @add _ v hv =>
    refine ⟨.nothing, ?_, rfl⟩
    rw [exact_set (toInt_add_extend m.accumulator v)]
    exact .add hcode (hsource (congrArg Opcode.hasMode ho) hv)
  case sub =>
    cases h with | @sub _ v hv =>
    refine ⟨.nothing, ?_, rfl⟩
    rw [exact_set (toInt_sub_extend m.accumulator v)]
    exact .sub hcode (hsource (congrArg Opcode.hasMode ho) hv)
  case mul =>
    cases h with | @mul _ v hv =>
    refine ⟨.nothing, ?_, rfl⟩
    rw [exact_set (toInt_mul_extend m.accumulator v)]
    exact .mul hcode (hsource (congrArg Opcode.hasMode ho) hv)
  case div =>
    cases h with | div hv hne =>
    refine ⟨.nothing, ?_, rfl⟩
    rw [exact_set rfl]
    exact .div hcode (hsource (congrArg Opcode.hasMode ho) hv) (division_extend m.accumulator hne)
  case mod =>
    cases h with | mod hv hne =>
    refine ⟨.nothing, ?_, rfl⟩
    rw [exact_set rfl]
    exact .mod hcode (hsource (congrArg Opcode.hasMode ho) hv) (division_extend m.accumulator hne)
  case neg =>
    cases h
    refine ⟨.nothing, ?_, rfl⟩
    rw [exact_set (Int32.toInt_neg m.accumulator)]
    exact .neg hcode
  case nop =>
    cases h
    exact ⟨.nothing, .nop hcode, rfl⟩
  case jmp =>
    cases h
    refine ⟨.nothing, ?_, rfl⟩
    rw [exact_jump]
    exact .jmp hcode
  case jneg =>
    cases h
    refine ⟨.nothing, ?_, rfl⟩
    rw [exact_jump, decide_eq_decide.mpr (lt_zero_iff m.accumulator)]
    exact .jneg hcode
  case jzero =>
    cases h
    refine ⟨.nothing, ?_, rfl⟩
    rw [exact_jump, decide_eq_decide.mpr (eq_zero_iff m.accumulator)]
    exact .jzero hcode
  case halt =>
    cases h
    exact ⟨.nothing, .halt hcode, rfl⟩

/-- A rule of the reference machine is a rule by which an instruction succeeds. -/
theorem executes_of_exact {κ : Type} [Console κ] {m m' : Machine} {k k' : κ} {w : Word}
    {x : Reference.Exchange} (h : Reference.Executes m.exact w.toNat x m'.exact)
    (hx : x.Performed k k') : m.Executes k w.decode m' k' := by
  rw [Word.decode]
  generalize hs : m'.exact = s at h
  cases h with
  | endMark op =>
    obtain rfl : k' = k := hx
    obtain rfl : m' = m.advancePc := exact_injective hs
    rw [Word.opcode_eq_of_code (o := .endMark) op]
    exact .endMark
  | load op value =>
    obtain rfl : k' = k := hx
    have hopcode := Word.opcode_eq_of_code (o := .load) op
    obtain ⟨v, hv, rfl⟩ := (source_eq_some_iff (congrArg Opcode.hasMode hopcode)).mp value
    obtain rfl := exact_injective (hs.trans (exact_set (toInt_extend v)).symm)
    rw [hopcode]
    exact .load hv
  | store op inside =>
    obtain rfl : k' = k := hx
    obtain rfl := exact_injective (hs.trans (exact_put (toNat_truncate m.accumulator)).symm)
    rw [Word.opcode_eq_of_code (o := .store) op]
    exact .store (address_lt_iff.mp inside)
  | @read token op inside =>
    obtain rfl := exact_injective (hs.trans (exact_put (toNat_inputWord token)).symm)
    rw [Word.opcode_eq_of_code (o := .read) op]
    exact .read hx (address_lt_iff.mp inside)
  | write op word =>
    obtain ⟨v, rfl, hwr⟩ := hx
    obtain rfl : m' = m.advancePc := exact_injective hs
    rw [exact_memory_getElem?, Reference.address, ← w.target_eq] at word
    obtain ⟨u, hu, huv⟩ := Option.map_eq_some_iff.mp word
    obtain rfl : u = v := UInt16.toNat_inj.mp huv
    rw [Word.opcode_eq_of_code (o := .write) op]
    exact .write hu hwr
  | add op value =>
    obtain rfl : k' = k := hx
    have hopcode := Word.opcode_eq_of_code (o := .add) op
    obtain ⟨v, hv, rfl⟩ := (source_eq_some_iff (congrArg Opcode.hasMode hopcode)).mp value
    obtain rfl := exact_injective (hs.trans (exact_set (toInt_add_extend m.accumulator v)).symm)
    rw [hopcode]
    exact .add hv
  | sub op value =>
    obtain rfl : k' = k := hx
    have hopcode := Word.opcode_eq_of_code (o := .sub) op
    obtain ⟨v, hv, rfl⟩ := (source_eq_some_iff (congrArg Opcode.hasMode hopcode)).mp value
    obtain rfl := exact_injective (hs.trans (exact_set (toInt_sub_extend m.accumulator v)).symm)
    rw [hopcode]
    exact .sub hv
  | mul op value =>
    obtain rfl : k' = k := hx
    have hopcode := Word.opcode_eq_of_code (o := .mul) op
    obtain ⟨v, hv, rfl⟩ := (source_eq_some_iff (congrArg Opcode.hasMode hopcode)).mp value
    obtain rfl := exact_injective (hs.trans (exact_set (toInt_mul_extend m.accumulator v)).symm)
    rw [hopcode]
    exact .mul hv
  | div op value division =>
    obtain rfl : k' = k := hx
    have hopcode := Word.opcode_eq_of_code (o := .div) op
    obtain ⟨v, hv, rfl⟩ := (source_eq_some_iff (congrArg Opcode.hasMode hopcode)).mp value
    obtain rfl := exact_injective (hs.trans (exact_set (toInt_of_division division).1).symm)
    rw [hopcode]
    exact .div hv division.word_ne_zero
  | mod op value division =>
    obtain rfl : k' = k := hx
    have hopcode := Word.opcode_eq_of_code (o := .mod) op
    obtain ⟨v, hv, rfl⟩ := (source_eq_some_iff (congrArg Opcode.hasMode hopcode)).mp value
    obtain rfl := exact_injective (hs.trans (exact_set (toInt_of_division division).2).symm)
    rw [hopcode]
    exact .mod hv division.word_ne_zero
  | neg op =>
    obtain rfl : k' = k := hx
    obtain rfl := exact_injective (hs.trans (exact_set (Int32.toInt_neg m.accumulator)).symm)
    rw [Word.opcode_eq_of_code (o := .neg) op]
    exact .neg
  | nop op =>
    obtain rfl : k' = k := hx
    obtain rfl : m' = m.advancePc := exact_injective hs
    rw [Word.opcode_eq_of_code (o := .nop) op]
    exact .nop
  | jmp op =>
    obtain rfl : k' = k := hx
    obtain rfl := exact_injective (hs.trans exact_jump.symm)
    rw [Word.opcode_eq_of_code (o := .jmp) op]
    exact .jmp
  | jneg op =>
    obtain rfl : k' = k := hx
    have hneg : decide (m.accumulator < 0) = decide (m.exact.accumulator < 0) :=
      decide_eq_decide.mpr (lt_zero_iff m.accumulator)
    rw [← hneg] at hs
    obtain rfl := exact_injective (hs.trans exact_jump.symm)
    rw [Word.opcode_eq_of_code (o := .jneg) op]
    exact .jneg
  | jzero op =>
    obtain rfl : k' = k := hx
    have hzero : decide (m.accumulator = 0) = decide (m.exact.accumulator = 0) :=
      decide_eq_decide.mpr (eq_zero_iff m.accumulator)
    rw [← hzero] at hs
    obtain rfl := exact_injective (hs.trans exact_jump.symm)
    rw [Word.opcode_eq_of_code (o := .jzero) op]
    exact .jzero
  | halt op =>
    obtain rfl : k' = k := hx
    obtain rfl : m' = { m with halted := true } := exact_injective hs
    rw [Word.opcode_eq_of_code (o := .halt) op]
    exact .halt

/-- Only the operation of code `15` halts the machine. -/
theorem statusAfter_decode (w : Word) :
    statusAfter w.decode = if w.toNat / 4096 = 15 then .halted else .running := by
  rw [← w.code_opcode, Word.decode]
  cases w.opcode <;> rfl

end Machine

/-- A step succeeds exactly when there is a word to fetch, the reference machine can execute it, and
the console can do its part.  The machine left behind is the one to which the reference machine
comes, the status tells HALT from all other operations, and the log has the word if the machine is
traced. -/
theorem Bench.step_eq_ok_iff_reference {κ : Type} [Console κ] (b b' : Bench κ) (st : Status) :
    b.step = (.ok st, b') ↔
      ∃ (w : Word) (x : Reference.Exchange), b.machine.memory.words[b.machine.pc]? = some w ∧
        Reference.Executes (b.machine.exact.fetch w.toNat) w.toNat x b'.machine.exact ∧
        x.Performed b.console b'.console ∧
        st = (if w.toNat / 4096 = 15 then .halted else .running) ∧
        b'.log = if b.machine.tracing then
            b.log.push (.executing w b.machine.pc b.machine.accumulator)
          else b.log := by
  rw [step_eq_ok_iff]
  constructor
  · rintro ⟨w, hw, hexec, rfl, hlog⟩
    obtain ⟨x, href, hx⟩ := hexec.exact
    rw [Machine.exact_fetch] at href
    exact ⟨w, x, hw, href, hx, Machine.statusAfter_decode w, hlog⟩
  · rintro ⟨w, x, hw, href, hx, rfl, hlog⟩
    rw [← Machine.exact_fetch] at href
    exact ⟨w, hw, Machine.executes_of_exact href hx, (Machine.statusAfter_decode w).symm, hlog⟩

end WordMachine
