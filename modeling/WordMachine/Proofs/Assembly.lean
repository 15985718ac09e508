import WordMachine.Listing
import WordMachine.Proofs.IgnoredBits
import WordMachine.Proofs.Numeral

/-!
# Assembling the text of an instruction

The text of an instruction does not tell its whole word.  An instruction without operand has no trace of
its operand field in its text, and where an address is meant, the text has the index of a word and not
which of the two bytes was addressed.  These are just the bits that a machine ignores.  So the text can
be assembled again into a word that may be another one but means the same
(`Word.exists_assemble?_disassembly`).

`Word.assemble?` is an assembler for single instructions.  A text is a name, or a name and an operand with a
blank between them: `#n` is the literal `n`, which goes below the mode bit, and `[n]` and a bare `n` are the
index of a word, whose first byte is addressed.
-/

namespace WordMachine

open Numeral

/-! ### An assembler -/

/-- The operation with a name. -/
def Opcode.ofMnemonic? (name : List Char) : Option Opcode :=
  ((List.range 16).map ofCode).find? fun o => o.mnemonic.toList = name

namespace Word

/-- The word with an operation and an operand field. -/
def ofFields (o : Opcode) (field : Nat) : Word :=
  UInt16.ofNat (o.code * 0x1000 + field)

/-- A number that can be a literal, and also the index of a word that has an address. -/
def index? (cs : List Char) : Option Nat :=
  (ofDigits? cs).filter (· < 0x800)

/-- The operand field for the text of an operand. -/
def operandField? : List Char → Option Nat
  | '#' :: cs => (index? cs).map (0x800 + ·)
  | '[' :: cs => if cs.getLast? = some ']' then (index? cs.dropLast).map (2 * ·) else none
  | cs => (index? cs).map (2 * ·)

/-- The word for the text of an instruction.  Without an operand the field is zero. -/
def assemble? (text : List Char) : Option Word :=
  match text.splitOn ' ' with
  | [name] => (Opcode.ofMnemonic? name).map (ofFields · 0)
  | [name, operand] =>
    (Opcode.ofMnemonic? name).bind fun o => (operandField? operand).map (ofFields o)
  | _ => none

end Word

/-! ### Names -/

namespace Opcode

theorem ofMnemonic?_mnemonic (o : Opcode) : ofMnemonic? o.mnemonic.toList = some o := by
  cases o <;> decide

/-- A name has neither a blank nor a line feed in it. -/
theorem not_mem_mnemonic (o : Opcode) :
    ' ' ∉ o.mnemonic.toList ∧ '\n' ∉ o.mnemonic.toList := by
  cases o <;> decide

end Opcode

/-! ### Fields -/

namespace Word

variable {o : Opcode} {field : Nat}

theorem toNat_ofFields (h : field < 0x1000) :
    (ofFields o field).toNat = o.code * 0x1000 + field := by
  have hcode : o.code < 16 := by cases o <;> decide
  have hlt : o.code * 0x1000 + field < 0x10000 := by omega
  exact UInt16.toNat_ofNat_of_lt' hlt

theorem opcode_ofFields (h : field < 0x1000) : (ofFields o field).opcode = o := by
  refine opcode_eq_of_code ?_
  rw [toNat_ofFields h]
  omega

theorem target_ofFields (h : field < 0x1000) : (ofFields o field).target = field / 2 := by
  have hfield : (o.code * 0x1000 + field) % 0x1000 = field := by omega
  rw [target_eq, toNat_ofFields h, hfield]

/-- A word is put together from its fields. -/
theorem ofFields_self (w : Word) : ofFields w.opcode (w.toNat % 0x1000) = w := by
  rw [ofFields, code_opcode, Nat.div_add_mod', UInt16.ofNat_toNat]

theorem target_lt (w : Word) : w.target < 0x800 := by
  have hlt : w.toNat % 0x1000 / 2 < 0x800 := by omega
  rw [target_eq]
  exact hlt

/-- The first byte of the word that is meant may be addressed in place of the second. -/
theorem decode_ofFields_target {w : Word} (h : w.isLiteral = false ∨ w.decode.operand? = none) :
    (ofFields w.opcode (2 * w.target)).decode = w.decode := by
  have hfield : 2 * w.target < 2 * 0x800 := Nat.mul_lt_mul_of_pos_left w.target_lt (by decide)
  refine (decode_eq_of_target (opcode_ofFields hfield).symm ?_ h).symm
  rw [target_ofFields hfield, Nat.mul_div_cancel_left _ (by decide)]

end Word

/-! ### Operands -/

namespace Word

variable {n : Nat}

theorem index?_digits (h : n < 0x800) : index? (digits 10 0 n) = some n := by
  rw [index?, ofDigits?_digits, Option.filter_some, if_pos (decide_eq_true h)]

theorem operandField?_literal {v : Word} (h : v.toNat < 0x800) :
    operandField? (Operand.literal v).text.toList = some (0x800 + v.toNat) := by
  have htext : (Operand.literal v).text.toList = '#' :: digits 10 0 v.toNat := by
    rw [Operand.text, String.toList_append, toList_decimal]
    rfl
  rw [htext, operandField?, index?_digits h]
  rfl

theorem operandField?_cell {i : WordIndex} (h : i < 0x800) :
    operandField? (Operand.cell i).text.toList = some (2 * i) := by
  have htext : (Operand.cell i).text.toList = '[' :: (digits 10 0 i ++ [']']) := by
    rw [Operand.text, WordIndex.text, String.toList_append, String.toList_append, toList_decimal]
    rfl
  rw [htext, operandField?, if_pos List.getLast?_concat, List.dropLast_concat, index?_digits h]
  rfl

/-- A bare index starts with a digit, which is neither of the other signs. -/
theorem operandField?_text {i : WordIndex} (h : i < 0x800) :
    operandField? (WordIndex.text i).toList = some (2 * i) := by
  rw [WordIndex.text, toList_decimal, operandField?, index?_digits h]
  · rfl
  · intro cs hcs
    exact not_mem_digits (c := '#') (by decide) 0 i (hcs ▸ List.mem_cons_self)
  · intro cs hcs
    exact not_mem_digits (c := '[') (by decide) 0 i (hcs ▸ List.mem_cons_self)

/-- The text of an operand tells the whole operand field of a literal, and of a cell as much as counts. -/
theorem exists_operandField?_operand (w : Word) :
    ∃ field, operandField? w.operand.text.toList = some field ∧
      (ofFields w.opcode field).decode = w.decode := by
  by_cases hmode : (w.opcode.hasMode && w.isLiteral) = true
  · -- the bits below the mode bit are all that is not yet known of the field
    have hbit := w.isLiteral_iff.mp (Bool.and_eq_true_iff.mp hmode).2
    have hlt : w.literal.toNat < 0x800 := by
      rw [toNat_literal]
      omega
    have hfield : 0x800 + w.literal.toNat = w.toNat % 0x1000 := by
      rw [toNat_literal]
      omega
    refine ⟨w.toNat % 0x1000, ?_, congrArg decode w.ofFields_self⟩
    rw [operand, if_pos hmode, operandField?_literal hlt, hfield]
  · -- the lowest bit of the field is lost, but the instruction does not depend on it
    have hcell : w.isLiteral = false ∨ w.decode.operand? = none := by
      rw [operand?_decode]
      cases hhas : w.opcode.hasMode with
      | false => exact .inr rfl
      | true =>
        rw [hhas, Bool.true_and] at hmode
        exact .inl (Bool.eq_false_iff.mpr hmode)
    refine ⟨2 * w.target, ?_, decode_ofFields_target hcell⟩
    rw [operand, if_neg hmode]
    exact operandField?_cell w.target_lt

/-- What an instruction carries is nothing, an operand with a mode, or the index of a word. -/
theorem operandText?_decode (w : Word) :
    (w.decode.operandText? = none ∧ (w.opcode = .endMark ∨ w.opcode = .neg ∨ w.opcode = .nop ∨
      w.opcode = .halt)) ∨
    w.decode.operandText? = some w.operand.text ∨
    (w.decode.operand? = none ∧ (w.decode.operandText? = some (Operand.cell w.target).text ∨
      w.decode.operandText? = some (WordIndex.text w.target))) := by
  rw [decode]
  cases w.opcode with
  | endMark => exact .inl ⟨rfl, .inl rfl⟩
  | neg => exact .inl ⟨rfl, .inr (.inl rfl)⟩
  | nop => exact .inl ⟨rfl, .inr (.inr (.inl rfl))⟩
  | halt => exact .inl ⟨rfl, .inr (.inr (.inr rfl))⟩
  | load | add | sub | mul | div | mod => exact .inr (.inl rfl)
  | store | read | write => exact .inr (.inr ⟨rfl, .inl rfl⟩)
  | jmp | jneg | jzero => exact .inr (.inr ⟨rfl, .inr rfl⟩)

/-- From the text of what an instruction carries an operand field comes back with which it means the
same. -/
theorem exists_operandField? {w : Word} {text : String} (h : w.decode.operandText? = some text) :
    ∃ field, operandField? text.toList = some field ∧
      (ofFields w.opcode field).decode = w.decode := by
  rcases w.operandText?_decode with ⟨hnone, -⟩ | hoperand | ⟨hplain, hcell | htarget⟩
  · rw [hnone] at h
    cases h
  · obtain rfl := Option.some.inj (hoperand.symm.trans h)
    exact w.exists_operandField?_operand
  · obtain rfl := Option.some.inj (hcell.symm.trans h)
    exact ⟨_, operandField?_cell w.target_lt, decode_ofFields_target (.inr hplain)⟩
  · obtain rfl := Option.some.inj (htarget.symm.trans h)
    exact ⟨_, operandField?_text w.target_lt, decode_ofFields_target (.inr hplain)⟩

/-- Nothing but digits and three signs stands in the text of what an instruction carries. -/
theorem not_mem_operandText {c : Char} (hdigit : isDigit c = false) (hsign : c ∉ ['#', '[', ']'])
    {w : Word} {text : String} (h : w.decode.operandText? = some text) : c ∉ text.toList := by
  have hnumeral (n : Nat) : c ∉ (decimal n).toList := by
    rw [toList_decimal]
    exact not_mem_digits hdigit 0 n
  obtain ⟨hhash, hopen, hclose⟩ : c ≠ '#' ∧ c ≠ '[' ∧ c ≠ ']' := by simpa using hsign
  have hcell (i : WordIndex) : c ∉ (Operand.cell i).text.toList := by
    have hi := hnumeral i
    simp [Operand.text, WordIndex.text, hopen, hclose, hi]
  have hoperand : c ∉ w.operand.text.toList := by
    rw [operand]
    split
    · have hv := hnumeral w.literal.toNat
      simp [Operand.text, hhash, hv]
    · exact hcell w.target
  rcases w.operandText?_decode with ⟨hnone, -⟩ | htext | ⟨-, htext | htext⟩
  · rw [hnone] at h
    cases h
  · exact Option.some.inj (htext.symm.trans h) ▸ hoperand
  · exact Option.some.inj (htext.symm.trans h) ▸ hcell w.target
  · exact Option.some.inj (htext.symm.trans h) ▸ hnumeral w.target

/-! ### Texts of instructions -/

/-- The text of an instruction is its name, or its name and what it carries. -/
theorem toList_disassembly (w : Word) :
    (w.decode.operandText? = none ∧ w.disassembly.toList = w.opcode.mnemonic.toList) ∨
    ∃ text, w.decode.operandText? = some text ∧
      w.disassembly.toList = w.opcode.mnemonic.toList ++ ' ' :: text.toList := by
  rw [disassembly, Instruction.text, opcode_decode]
  cases w.decode.operandText? with
  | none => exact .inl ⟨rfl, rfl⟩
  | some text =>
    right
    refine ⟨text, rfl, ?_⟩
    rw [String.toList_append, String.toList_append, List.append_assoc]
    rfl

/-- No line feed stands in the text of an instruction. -/
theorem lineFeed_not_mem_disassembly (w : Word) : '\n' ∉ w.disassembly.toList := by
  have hname := w.opcode.not_mem_mnemonic.2
  rcases w.toList_disassembly with ⟨-, htext⟩ | ⟨text, hoperand, htext⟩
  · rw [htext]
    exact hname
  · rw [htext, List.mem_append, not_or, List.mem_cons, not_or]
    exact ⟨hname, by decide, not_mem_operandText (by decide) (by decide) hoperand⟩

/-- The text of an instruction can be assembled into a word that means the same, and so has the same
text. -/
theorem exists_assemble?_disassembly (w : Word) :
    ∃ v, assemble? w.disassembly.toList = some v ∧ v.decode = w.decode ∧
      v.disassembly = w.disassembly := by
  have hsame {v : Word} (h : v.decode = w.decode) :
      v.decode = w.decode ∧ v.disassembly = w.disassembly :=
    ⟨h, congrArg Instruction.text h⟩
  have hname := w.opcode.not_mem_mnemonic.1
  have hopcode := w.opcode.ofMnemonic?_mnemonic
  rcases w.toList_disassembly with ⟨hnone, htext⟩ | ⟨text, hoperand, htext⟩
  · have hsplit : w.disassembly.toList.splitOn ' ' = [w.opcode.mnemonic.toList] := by
      rw [htext]
      exact List.splitOn_eq_singleton hname
    have hzero : (ofFields w.opcode 0).opcode = w.opcode := opcode_ofFields (by decide)
    refine ⟨ofFields w.opcode 0, ?_, hsame (decode_eq_of_no_operand hzero ?_)⟩
    · rw [assemble?, hsplit]
      dsimp only
      rw [hopcode]
      rfl
    · rw [hzero]
      rcases w.operandText?_decode with ⟨-, hopcodes⟩ | hsome | ⟨-, hsome | hsome⟩
      · exact hopcodes
      all_goals
        rw [hnone] at hsome
        cases hsome
  · have hblank : ' ' ∉ text.toList := not_mem_operandText (by decide) (by decide) hoperand
    have hsplit : w.disassembly.toList.splitOn ' ' =
        [w.opcode.mnemonic.toList, text.toList] := by
      rw [htext, List.splitOn_append_cons_self_of_not_mem hname, List.splitOn_eq_singleton hblank]
    obtain ⟨field, hfield, hdecode⟩ := exists_operandField? hoperand
    refine ⟨ofFields w.opcode field, ?_, hsame hdecode⟩
    rw [assemble?, hsplit]
    dsimp only
    rw [hopcode, Option.bind_some, hfield]
    rfl

/-- The second byte of a word is addressed, and the first one comes back. -/
example : assemble? (disassembly 0xC009).toList = some 0xC008 := by decide +kernel

end Word

end WordMachine
