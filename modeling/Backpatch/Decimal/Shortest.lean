import Backpatch.Decimal.Nearest

/-!
# The shortest decimal of a double

Of the decimals that are nearer to a double than to any other, so that reading them gives the double
back, the ones with the fewest digits are sought, and among these the one nearest to the double.
For each number of digits only the two neighbours of the double on the grid of such decimals have to
be tried.  Of two that are equally near, the one with an even last digit is taken.
-/

namespace Backpatch

/-- A natural number times a power of ten. -/
structure Decimal where
  digits : Nat
  power : Int
  deriving DecidableEq, Repr, Inhabited

namespace Decimal

/-- The number of decimal digits of a natural number. -/
def length (number : Nat) : Nat :=
  (Nat.toDigits 10 number).length

/-- Drop up to `limit` zeros at the end of the digits. -/
def stripZeros : (limit : Nat) → Decimal → Decimal
  | 0, decimal => decimal
  | limit + 1, decimal =>
      if decimal.digits ≠ 0 ∧ decimal.digits % 10 = 0 then
        stripZeros limit ⟨decimal.digits / 10, decimal.power + 1⟩
      else
        decimal

/-- Reading the decimal gives a double of this magnitude. -/
def reads (magnitude : Nat) (decimal : Decimal) : Bool :=
  Double.ofDecimal? false decimal.digits decimal.power == some (Double.ofParts false magnitude)

/-- Of the two multiples of `10 ^ power` around a quotient, the nearest that reads as a double of
the given magnitude. -/
def onGrid? (magnitude numerator denominator : Nat) (power : Int) : Option Decimal :=
  let numerator := numerator * Nat.pow 10 (-power).toNat
  let denominator := denominator * Nat.pow 10 power.toNat
  let low : Decimal := ⟨numerator / denominator, power⟩
  let high : Decimal := ⟨numerator / denominator + 1, power⟩
  let twice := 2 * (numerator % denominator)
  match reads magnitude low, reads magnitude high with
  | true, true =>
      if twice < denominator ∨ (twice = denominator ∧ low.digits % 2 = 0) then some low
      else some high
  | true, false => some low
  | false, true => some high
  | false, false => none

end Decimal

namespace Double

/-- The magnitude of a double, which counts the doubles from zero upward. -/
def magnitude (double : Double) : Nat :=
  double.bits.toNat % Nat.pow 2 63

/-- The number of units of `2 ^ -1074` that a double counts. -/
def units (double : Double) : Nat :=
  let (significand, spacing) := double.significand
  significand * Nat.pow 2 spacing

/-- The power of ten of the first digit of a double that is not zero. -/
def leadingPower (double : Double) : Int :=
  (Decimal.length (double.units * Nat.pow 10 330 / Nat.pow 2 1074) : Int) - 331

/-- The shortest decimal that reads as the magnitude of a finite double that is not zero.  Seventeen
digits are always enough; the exact value stands in for a search that finds nothing. -/
def shortest (double : Double) : Decimal :=
  let leading := double.leadingPower
  let found := (List.range 17).findSome? fun (more : Nat) =>
    Decimal.onGrid? double.magnitude double.units (Nat.pow 2 1074) (leading - more)
  Decimal.stripZeros 20 (found.getD ⟨double.units * Nat.pow 5 1074, -1074⟩)

end Double

end Backpatch
