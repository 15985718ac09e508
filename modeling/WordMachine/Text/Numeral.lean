/-!
# Numerals of a fixed least width

Addresses, words and registers are printed with a least number of digits.  A numeral here is the
list of digits of a natural number, most significant first, filled up with zeros on the left; a
number that needs more digits than the width is printed in full, so nothing is ever cut off.
-/

namespace WordMachine

namespace Numeral

/-! ### Digits -/

/-- Fills `digits` up to `width` characters with zeros on the left. -/
def padLeft (width : Nat) (digits : List Char) : List Char :=
  List.replicate (width - digits.length) '0' ++ digits

/-- The digits of `n` in `base`, at least `width` of them. -/
def digits (base width n : Nat) : List Char :=
  padLeft width (Nat.toDigits base n)

@[simp] theorem length_padLeft (width : Nat) (ds : List Char) :
    (padLeft width ds).length = max width ds.length := by
  simp [padLeft]; omega

theorem padLeft_of_le {width : Nat} {ds : List Char} (h : width ≤ ds.length) :
    padLeft width ds = ds := by
  simp [padLeft, Nat.sub_eq_zero_of_le h]

/-! ### Text -/

/-- The decimal numeral of `n`, without padding. -/
def decimal (n : Nat) : String :=
  String.ofList (Nat.toDigits 10 n)

/-- The decimal numeral of an integer, with a minus sign in front of a negative one. -/
def signed : Int → String
  | .ofNat n => decimal n
  | .negSucc n => "-" ++ decimal (n + 1)

/-- The decimal numeral of `n` with at least `width` digits. -/
def decimalPadded (width n : Nat) : String :=
  String.ofList (digits 10 width n)

/-- The binary numeral of `n` with at least `width` digits. -/
def binary (width n : Nat) : String :=
  String.ofList (digits 2 width n)

/-- The hexadecimal numeral of `n` with at least `width` digits, in small letters. -/
def hexSmall (width n : Nat) : String :=
  String.ofList (digits 16 width n)

/-- The hexadecimal numeral of `n` with at least `width` digits, in capital letters. -/
def hexCapital (width n : Nat) : String :=
  String.ofList ((digits 16 width n).map Char.toUpper)

/-! ### Reading -/

/-- The decimal digits. -/
def isDigit (c : Char) : Bool :=
  '0' ≤ c && c ≤ '9'

/-- Digits, at least one. -/
def isDigits (cs : List Char) : Bool :=
  !cs.isEmpty && cs.all isDigit

/-- The number that decimal digits denote; there has to be one at least, and nothing else. -/
def ofDigits? (cs : List Char) : Option Nat :=
  if isDigits cs then some (Nat.ofDigitChars 10 cs 0) else none

/-- The number that decimal digits denote; a plus sign may stand in front of them. -/
def ofPlusDigits? : List Char → Option Nat
  | '+' :: cs => ofDigits? cs
  | cs => ofDigits? cs

/-- An exponent, or nothing. -/
def isExponent : List Char → Bool
  | [] => true
  | 'e' :: '-' :: cs | 'E' :: '-' :: cs | 'e' :: '+' :: cs | 'E' :: '+' :: cs => isDigits cs
  | 'e' :: cs | 'E' :: cs => isDigits cs
  | _ => false

/-- The value of a hexadecimal digit. -/
def hexDigit? (c : Char) : Option Nat :=
  if '0' ≤ c ∧ c ≤ '9' then some (c.toNat - '0'.toNat)
  else if 'a' ≤ c ∧ c ≤ 'f' then some (c.toNat - 'a'.toNat + 10)
  else if 'A' ≤ c ∧ c ≤ 'F' then some (c.toNat - 'A'.toNat + 10)
  else none

/-- The number that hexadecimal digits denote, after the digits of `before`. -/
def ofHexDigits? (before : Nat) : List Char → Option Nat
  | [] => some before
  | c :: cs => (hexDigit? c).bind fun d => ofHexDigits? (before * 16 + d) cs

end Numeral

end WordMachine
