import Backpatch.Double

/-!
# The double nearest to a decimal

Every finite double is a natural number of units of `2 ^ -1074`, with a sign.  The bits of a double,
read as a number, count the doubles from zero upward; so rounding to a double is rounding to a
multiple of a power of two and counting.  A value halfway between two doubles goes to the one with
even bits.  Decimals beyond the greatest double have no nearest one.
-/

namespace Backpatch

/-- A quotient rounded to the nearest natural number, halves to the even one. -/
def roundDiv (numerator denominator : Nat) : Nat :=
  let quotient := numerator / denominator
  let twice := 2 * (numerator % denominator)
  if twice < denominator ∨ (twice = denominator ∧ quotient % 2 = 0) then quotient
  else quotient + 1

namespace Double

/-- The number of the double nearest to a quotient, counted from zero upward.  The spacing of the
doubles around the quotient is `2 ^ spacing` units. -/
def nearestMagnitude (numerator denominator : Nat) : Nat :=
  let units := numerator * Nat.pow 2 1074
  let spacing := (units / denominator).log2 - 52
  spacing * Nat.pow 2 52 + roundDiv units (denominator * Nat.pow 2 spacing)

/-- The number of the least infinity, counted like the doubles. -/
def infinityMagnitude : Nat := 2047 * Nat.pow 2 52

/-- The double nearest to `digits * 10 ^ power`, unless it is infinite.  Powers that are far out of
range need not be computed. -/
def ofDecimal? (negative : Bool) (digits : Nat) (power : Int) : Option Double :=
  if digits = 0 ∨ power < -((digits.log2 : Int) + 401) then
    some (ofParts negative 0)
  else if power > 309 then
    none
  else
    let magnitude :=
      nearestMagnitude (digits * Nat.pow 10 power.toNat) (Nat.pow 10 (-power).toNat)
    if magnitude < infinityMagnitude then some (ofParts negative magnitude) else none

end Double

end Backpatch
