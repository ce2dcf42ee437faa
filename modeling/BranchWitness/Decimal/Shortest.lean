import BranchWitness.Decimal.Nearest

/-!
# The shortest decimal of a double-precision number

A double-precision number is shown by the fewest digits that are read as it, and of those the
nearest to it.  All of it is exact arithmetic on natural numbers.
-/

namespace BranchWitness.Decimal

/-- Whether `digits · 10 ^ power` is read as the number: it lies between the midpoints to the
neighbours, and on one of them only if the mantissa is even. -/
def readsAs (double : Double) (digits : Nat) (power : Int) : Bool :=
  let unit := double.exponent - 2
  let low :=
    if double.mantissa = Nat.pow 2 52 ∧ double.exponent > -1074 then 4 * double.mantissa - 1
    else 4 * double.mantissa - 2
  let high := 4 * double.mantissa + 2
  let decimal := digits * Nat.pow 10 power.toNat * Nat.pow 2 (-unit).toNat
  let scale := Nat.pow 10 (-power).toNat * Nat.pow 2 unit.toNat
  if double.mantissa % 2 = 0 then low * scale ≤ decimal && decimal ≤ high * scale
  else low * scale < decimal && decimal < high * scale

/-- The power of ten at or below the number, which is not zero. -/
def decimalLog (double : Double) : Int :=
  let shifted :=
    double.mantissa * Nat.pow 10 400 * Nat.pow 2 double.exponent.toNat
      / Nat.pow 2 (-double.exponent).toNat
  (digitCount shifted : Int) - 401

/-- The decimals with `count` digits next to the number that are read as it, the nearer first. -/
def candidates (double : Double) (count : Nat) : List (Nat × Int) :=
  let power := decimalLog double + 1 - count
  let numerator :=
    double.mantissa * Nat.pow 2 double.exponent.toNat * Nat.pow 10 (-power).toNat
  let denominator := Nat.pow 2 (-double.exponent).toNat * Nat.pow 10 power.toNat
  let below := numerator / denominator
  let near := roundDiv numerator denominator
  let far := if near = below then below + 1 else below
  [(near, power), (far, power)].filter fun decimal => readsAs double decimal.1 decimal.2

/-- Move the zeros at the end of the digits, at most `fuel` of them, into the power. -/
def stripZeros : (fuel : Nat) → (digits : Nat) → (power : Int) → Nat × Int
  | 0, digits, power => (digits, power)
  | fuel + 1, digits, power =>
      if digits % 10 = 0 then stripZeros fuel (digits / 10) (power + 1) else (digits, power)

/-- The shortest decimal that is read as the number; seventeen digits always suffice.  A
candidate just above the number may be a power of ten, whose zeros are not digits of it. -/
def shortest (double : Double) : Nat × Int :=
  if double.mantissa = 0 then (0, 0)
  else
    let found? := (List.range 17).findSome? fun n => (candidates double (n + 1)).head?
    let decimal := found?.getD (0, 0)
    stripZeros 17 decimal.1 decimal.2

end BranchWitness.Decimal
