import WordMachine.Text.Numeral

/-!
# Words and their fields

A word of the machine has sixteen bits.  Read as an instruction it is an operation code of four
bits above an operand field of twelve:

    15    12 11 10                 0
    +--------+--+--------------------+
    |  code  |M |       literal      |
    +--------+--+--------------------+
             |<---- operand field -->|

The operand field as a whole is a byte address; the mode bit `M` splits it for the operations that
take a literal.  A word is two bytes wide, so byte address `a` lies in the word of index `a / 2`.
-/

namespace WordMachine

/-- A word of memory. -/
abbrev Word := UInt16

/-- The position of a word in memory. -/
abbrev WordIndex := Nat

namespace WordIndex

/-- The index of the word that follows. -/
def next (i : WordIndex) : WordIndex :=
  i + 1

/-- An index is printed as a plain decimal numeral. -/
def text (i : WordIndex) : String :=
  Numeral.decimal i

end WordIndex

/-- Sizes and positions are numbers below this bound, the 64th power of two. -/
def sizeBound : Nat := 0x10000000000000000

/-! ### Byte addresses -/

/-- An address that counts bytes, as an operand field holds it. -/
structure ByteAddress where
  value : UInt16
deriving DecidableEq, Repr

namespace ByteAddress

/-- The word in which the byte lies. -/
def wordIndex (a : ByteAddress) : WordIndex :=
  a.value.toNat / 2

/-- A byte address is printed in hexadecimal with at least three digits. -/
def text (a : ByteAddress) : String :=
  "0x" ++ Numeral.hexSmall 3 a.value.toNat

end ByteAddress

/-! ### Fields of an instruction word -/

namespace Word

/-- The operation code: the four high bits. -/
def operationCode (w : Word) : Nat :=
  w.toNat / 0x1000

/-- The operand field: the twelve low bits. -/
def operandField (w : Word) : Word :=
  w % 0x1000

/-- The mode bit, the highest of the operand field. -/
def isLiteral (w : Word) : Bool :=
  0x800 ≤ w.operandField

/-- The literal: the eleven bits below the mode bit. -/
def literal (w : Word) : Word :=
  w % 0x800

/-- The operand field as a byte address. -/
def address (w : Word) : ByteAddress :=
  ⟨w.operandField⟩

/-- The word to which the operand field points. -/
def target (w : Word) : WordIndex :=
  w.address.wordIndex

/-! ### Binary tokens -/

/-- The bit that a character of a token denotes: only `'1'` is one, anything else is zero. -/
def bit (c : Char) : Word :=
  if c = '1' then 1 else 0

/-- The word that a token spells, most significant bit first.  Characters after the sixteenth are
ignored, and a shorter token counts as filled up with zeros on the left. -/
def ofToken (token : String) : Word :=
  (token.toList.take 16).foldl (fun w c => 2 * w + bit c) 0

/-- The token of a word: its sixteen bits. -/
def token (w : Word) : String :=
  Numeral.binary 16 w.toNat

end Word

end WordMachine
