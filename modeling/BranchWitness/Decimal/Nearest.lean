/-!
# The nearest double-precision number

A decimal `digits · 10 ^ power` is read as the nearest double-precision number, a tie going to
the even mantissa.  All of it is exact arithmetic on natural numbers.
-/

namespace BranchWitness.Decimal

/-- A finite double-precision number without its sign: `mantissa · 2 ^ exponent`. -/
structure Double where
  /-- The mantissa, below `2 ^ 53`. -/
  mantissa : Nat
  /-- The exponent, at least `-1074`. -/
  exponent : Int

/-- The number zero. -/
def Double.zero : Double :=
  ⟨0, -1074⟩

/-- The number of decimal digits of a natural number. -/
def digitCount (n : Nat) : Nat :=
  (Nat.toDigits 10 n).length

/-- The quotient rounded to the nearest natural number, a tie going to the even one. -/
def roundDiv (numerator denominator : Nat) : Nat :=
  let quotient := numerator / denominator
  let remainder := numerator % denominator
  if 2 * remainder < denominator then quotient
  else if denominator < 2 * remainder then quotient + 1
  else quotient + quotient % 2

/-- The nearest number to `numerator / denominator` with the given exponent, or with the next one
if rounding fills the mantissa. -/
def roundAt (numerator denominator : Nat) (exponent : Int) : Double :=
  let mantissa :=
    roundDiv (numerator * Nat.pow 2 (-exponent).toNat) (denominator * Nat.pow 2 exponent.toNat)
  if mantissa = Nat.pow 2 53 then ⟨Nat.pow 2 52, exponent + 1⟩ else ⟨mantissa, exponent⟩

/-- The power of two at or below `numerator / denominator`. -/
def binaryLog (numerator denominator : Nat) : Int :=
  let guess : Int := numerator.log2 - denominator.log2
  if denominator * Nat.pow 2 guess.toNat ≤ numerator * Nat.pow 2 (-guess).toNat then guess
  else guess - 1

/-- The nearest double-precision number to a fraction, if it is finite. -/
def nearestFraction? (numerator denominator : Nat) : Option Double :=
  if numerator = 0 then some .zero
  else
    let exponent := max (-1074) (binaryLog numerator denominator - 52)
    let double := roundAt numerator denominator exponent
    if double.exponent > 971 then none else some double

/-- The nearest double-precision number to a decimal, if it is finite.  Far outside the range no
power is computed. -/
def nearest? (digits : Nat) (power : Int) : Option Double :=
  let magnitude := digitCount digits + power
  if digits = 0 ∨ magnitude < -330 then some .zero
  else if magnitude > 310 then none
  else nearestFraction? (digits * Nat.pow 10 power.toNat) (Nat.pow 10 (-power).toNat)

/-- The product of two numbers, rounded to the nearest, if it is finite. -/
def Double.mul? (a b : Double) : Option Double :=
  let exponent := a.exponent + b.exponent
  nearestFraction? (a.mantissa * b.mantissa * Nat.pow 2 exponent.toNat)
    (Nat.pow 2 (-exponent).toNat)

end BranchWitness.Decimal
