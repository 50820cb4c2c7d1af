import Backpatch.Decimal.Shortest
import Backpatch.Json.Reader
import Backpatch.Json.Writer

/-!
# Doubles in documents

A double is written with the fewest digits that identify it.  If its first digit has a power of ten
from -5 to 15, the digits are written with a point among or behind them and at least one digit after
it; otherwise the point stands after the first digit, and a power of ten with its sign follows.
Infinities and NaNs have no number and are written as `null`.

A double may be given by any number, whose value is rounded to the nearest double.  A number that is
nearest to an infinity is refused.  This way of reading is idealised: a reader that computes with
doubles may end up one unit in the last place beside the nearest one for some literals.  It agrees
with the reader here on all that is written as above as long as it reads a double back from the
digits that identify it.
-/

namespace Backpatch

/-- The least power of ten of a first digit that is not written. -/
def Decimal.leastPlain : Int := -5

/-- The greatest power of ten of a first digit that is not written. -/
def Decimal.greatestPlain : Int := 15

/-- The literal of a decimal that is not zero. -/
def Decimal.toNumber (decimal : Decimal) (negative : Bool) : Json.Number :=
  let length := Decimal.length decimal.digits
  let leading := decimal.power + length - 1
  if leastPlain ≤ leading ∧ leading ≤ greatestPlain then
    if decimal.power < 0 then
      ⟨negative, decimal.digits, decimal.power.natAbs, none⟩
    else
      ⟨negative, decimal.digits * Nat.pow 10 (decimal.power.toNat + 1), 1, none⟩
  else
    ⟨negative, decimal.digits, length - 1, some leading⟩

namespace Double

/-- The literal of a double, if it is finite. -/
def toNumber? (double : Double) : Option Json.Number :=
  if ¬double.isFinite then none
  else if double.magnitude = 0 then some ⟨double.isNegative, 0, 1, none⟩
  else some (double.shortest.toNumber double.isNegative)

/-- The double nearest to a literal. -/
def ofNumber? (number : Json.Number) : Option Double :=
  ofDecimal? number.negative number.digits number.power

def toJson (double : Double) : Json :=
  match double.toNumber? with
  | some number => .number number
  | none => .null

end Double

def Json.readDouble : Json.Reader Double
  | _, .number literal => Double.ofNumber? literal
  | _, _ => none

end Backpatch
