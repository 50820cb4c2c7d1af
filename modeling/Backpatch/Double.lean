/-!
# Doubles

A double is carried through the compiler as its 64 bits: literals are copied into the code and into
documents, and no arithmetic is ever done on them.  Two doubles are equal when their bits are.
-/

namespace Backpatch

/-- A binary64 floating-point number, by its bits. -/
structure Double where
  bits : UInt64
  deriving DecidableEq, Repr, Inhabited

namespace Double

/-- The sign bit is set. -/
def isNegative (double : Double) : Bool :=
  Nat.pow 2 63 ≤ double.bits.toNat

/-- The eleven exponent bits as stored. -/
def biasedExponent (double : Double) : Nat :=
  double.bits.toNat / Nat.pow 2 52 % Nat.pow 2 11

/-- The fifty-two fraction bits as stored. -/
def fraction (double : Double) : Nat :=
  double.bits.toNat % Nat.pow 2 52

/-- Neither an infinity nor a NaN. -/
def isFinite (double : Double) : Bool :=
  double.biasedExponent ≠ 2047

/-- The double with the given sign and the given exponent and fraction bits. -/
def ofParts (negative : Bool) (magnitude : Nat) : Double :=
  ⟨UInt64.ofNat (magnitude + if negative then Nat.pow 2 63 else 0)⟩

/-- Of a finite double without its sign, the natural numbers `m` and `k` with value
`m * 2 ^ k / 2 ^ 1074`. -/
def significand (double : Double) : Nat × Nat :=
  match double.biasedExponent with
  | 0 => (double.fraction, 0)
  | exponent + 1 => (double.fraction + Nat.pow 2 52, exponent)

end Double

end Backpatch
