import WordMachine.Machine.Basic

/-!
# Words and accumulators as numbers

The machine computes with words of sixteen bits and an accumulator of thirty-two.  This module
reads both as exact integers.  The fields of a word are quotients and remainders of its number
(`Word.code_opcode`, `Word.toNat_literal`, `Word.target_eq`); a word that comes into the
accumulator keeps its number (`toInt_extend`), and an accumulator that goes into a word loses all
but its remainder by `65536` (`toNat_truncate`).

Sums, differences and products of accumulators are those of the integers up to the balanced
remainder, which the standard library states.  Quotients need no remainder at all: a divisor comes
from a word, so it is never `-1` (`toInt_div_extend`).
-/

namespace WordMachine

/-! ### Fields of a word -/

namespace Opcode

/-- Only the four low bits of a code count. -/
theorem code_ofCode (c : Nat) : (ofCode c).code = c % 16 := by
  have hlt : c % 16 < 16 := Nat.mod_lt c (by decide)
  unfold ofCode
  generalize c % 16 = r at hlt ⊢
  revert r
  decide

end Opcode

namespace Word

/-- The code of the operation of a word is its number divided by `4096`. -/
theorem code_opcode (w : Word) : w.opcode.code = w.toNat / 4096 := by
  have hlt : w.toNat / 4096 < 16 := by
    have := w.toNat_lt
    omega
  rw [opcode, Opcode.code_ofCode]
  exact Nat.mod_eq_of_lt hlt

/-- The operation of a word is known from its code. -/
theorem opcode_eq_of_code {w : Word} {o : Opcode} (h : w.toNat / 4096 = o.code) :
    w.opcode = o := by
  rw [← Opcode.ofCode_code w.opcode, code_opcode, h, Opcode.ofCode_code]

/-- The operand field is the remainder by `4096`. -/
theorem toNat_operandField (w : Word) : w.operandField.toNat = w.toNat % 4096 :=
  UInt16.toNat_mod w 0x1000

/-- The literal is the remainder by `2048`. -/
theorem toNat_literal (w : Word) : w.literal.toNat = w.toNat % 2048 :=
  UInt16.toNat_mod w 0x800

/-- The word to which the operand field points, all twelve bits of the field taken as a byte
address. -/
theorem target_eq (w : Word) : w.target = w.toNat % 4096 / 2 := by
  rw [target, address, ByteAddress.wordIndex, toNat_operandField]

/-- The mode bit is bit `11`. -/
theorem isLiteral_iff (w : Word) : w.isLiteral = true ↔ w.toNat / 2048 % 2 = 1 := by
  have hle : w.isLiteral = true ↔ 2048 ≤ w.operandField.toNat := by
    rw [isLiteral, decide_eq_true_iff, UInt16.le_iff_toNat_le]
    rfl
  rw [hle, toNat_operandField]
  omega

end Word

/-! ### Between words and accumulators -/

namespace Machine

/-- A word keeps its number, which is never negative, in the accumulator. -/
theorem toInt_extend (w : Word) : (extend w).toInt = w.toNat := by
  have hlt : w.toNat < 2147483648 := Nat.lt_trans w.toNat_lt (by decide)
  exact Int32.toInt_ofNat_of_lt hlt

/-- Different words are different numbers in the accumulator. -/
theorem extend_eq_zero_iff (w : Word) : extend w = 0 ↔ w = 0 := by
  rw [← Int32.toInt_inj, toInt_extend, Int32.toInt_zero, Int.natCast_eq_zero]
  exact UInt16.toNat_inj (b := 0)

/-- A word takes the remainder of an accumulator by `65536`. -/
theorem toNat_truncate (x : Int32) : (truncate x).toNat = (x.toInt % 65536).toNat := by
  -- the signed and the unsigned reading of the accumulator differ by `2 ^ 32` at most
  have hint : x.toInt = if 2 * x.toUInt32.toNat < 4294967296 then (x.toUInt32.toNat : Int)
      else (x.toUInt32.toNat : Int) - 4294967296 :=
    BitVec.toInt_eq_toNat_cond x.toBitVec
  have hword : (truncate x).toNat = x.toUInt32.toNat % 65536 := UInt32.toNat_toUInt16 _
  rw [hword, hint]
  split <;> omega

/-- READ keeps the remainder of a token by `4096`. -/
theorem toNat_inputWord (token : String) :
    (inputWord token).toNat = (Word.ofToken token).toNat % 4096 :=
  Word.toNat_operandField _

/-- A quotient by a word is exact: the least accumulator divided by `-1` cannot occur. -/
theorem toInt_div_extend (x : Int32) (w : Word) :
    (x / extend w).toInt = x.toInt.tdiv w.toNat := by
  have hne : extend w ≠ -1 := by
    intro h
    have := congrArg Int32.toInt h
    rw [toInt_extend] at this
    have hneg : (-1 : Int32).toInt = -1 := by decide
    omega
  rw [Int32.toInt_div_of_ne_right _ _ hne, toInt_extend]

/-- A remainder by a word. -/
theorem toInt_mod_extend (x : Int32) (w : Word) :
    (x % extend w).toInt = x.toInt.tmod w.toNat := by
  rw [Int32.toInt_mod, toInt_extend]

/-- A jump on a negative accumulator looks at all its bits. -/
theorem lt_zero_iff (x : Int32) : x < 0 ↔ x.toInt < 0 := by
  rw [Int32.lt_iff_toInt_lt, Int32.toInt_zero]

/-- A jump on a zero accumulator looks at all its bits. -/
theorem eq_zero_iff (x : Int32) : x = 0 ↔ x.toInt = 0 := by
  rw [← Int32.toInt_inj, Int32.toInt_zero]

end Machine

end WordMachine
