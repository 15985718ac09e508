/-!
# Rounding of quotients

A quotient of natural numbers is rounded to the nearest number of a grid, and a tie goes to the
even neighbour.  The grid is the whole numbers in `nearest`, and in `significant` the numbers of 53
binary digits times a power of two, which is the grid of double precision.  A number of that grid is
again kept as a quotient, so that several roundings can follow one another exactly.
-/

namespace WordMachine

/-- A quotient of natural numbers. -/
structure Quotient where
  num : Nat
  den : Nat
deriving DecidableEq, Repr

namespace Quotient

/-! ### Arithmetic -/

/-- A natural number as a quotient. -/
def ofNat (n : Nat) : Quotient :=
  ⟨n, 1⟩

/-- The exact product of two quotients. -/
def mul (a b : Quotient) : Quotient :=
  ⟨a.num * b.num, a.den * b.den⟩

/-- The exact quotient of two quotients, the second not zero. -/
def div (a b : Quotient) : Quotient :=
  ⟨a.num * b.den, a.den * b.num⟩

/-- The quotient times a power of two, whose exponent may be negative. -/
def shift (a : Quotient) : Int → Quotient
  | .ofNat e => ⟨a.num <<< e, a.den⟩
  | .negSucc e => ⟨a.num, a.den <<< (e + 1)⟩

/-! ### Rounding -/

/-- The nearest whole number; halfway between two of them, the even one. -/
def nearest (a : Quotient) : Nat :=
  let floor := a.num / a.den
  let twice := 2 * (a.num % a.den)
  if twice < a.den ∨ (twice = a.den ∧ floor % 2 = 0) then floor else floor + 1

/-- The number of binary digits that are kept. -/
def precision : Nat := 53

/-- The power of two by which a positive quotient has to be multiplied to have exactly `precision`
binary digits before the point. -/
def scale (a : Quotient) : Int :=
  let guess : Int := (precision : Int) - 1 - a.num.log2 + a.den.log2
  let scaled := a.shift guess
  if scaled.num < scaled.den <<< (precision - 1) then guess + 1 else guess

/-- The nearest number with `precision` binary digits; halfway between two of them, the even one. -/
def significant (a : Quotient) : Quotient :=
  if a.num = 0 then
    ofNat 0
  else
    (ofNat (a.shift a.scale).nearest).shift (-a.scale)

end Quotient

end WordMachine
