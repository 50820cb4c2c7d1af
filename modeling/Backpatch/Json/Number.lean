/-!
# Numbers in documents

A number in a document is a decimal literal: an optional minus sign, digits with an optional point
among them, and an optional power of ten.  Whether it has a point or a power matters beside its
value, because only a literal with neither stands for an integer.
-/

namespace Backpatch.Json

/-- A decimal literal. -/
structure Number where
  negative : Bool
  /-- All digits, read as if there were no point. -/
  digits : Nat
  /-- The number of digits after the point; there is no point if it is zero. -/
  scale : Nat
  /-- The power of ten, if one is written. -/
  exponent : Option Int
  deriving DecidableEq, Repr, Inhabited

namespace Number

def ofNat (value : Nat) : Number :=
  ⟨false, value, 0, none⟩

def ofInt (value : Int) : Number :=
  ⟨value < 0, value.natAbs, 0, none⟩

/-- The integer of a literal without point and power.  A zero with a minus sign is not one. -/
def toInt? (number : Number) : Option Int :=
  if number.scale = 0 ∧ number.exponent = none ∧ ¬(number.negative ∧ number.digits = 0) then
    some (if number.negative then -number.digits else number.digits)
  else
    none

/-- The power of ten by which the digits are to be multiplied. -/
def power (number : Number) : Int :=
  number.exponent.getD 0 - number.scale

/-- The digits at the beginning of a text and what follows them; there must be one at least. -/
def digits? (text : List Char) : Option (List Char × List Char) :=
  match text.span Char.isDigit with
  | ([], _) => none
  | (digits, rest) => some (digits, rest)

/-- The digits before the point, which start with a zero only if that is all. -/
def whole? (text : List Char) : Option (List Char × List Char) :=
  match digits? text with
  | some ('0' :: _ :: _, _) => none
  | result => result

/-- The digits after the point, if there is one. -/
def fraction? : List Char → Option (List Char × List Char)
  | '.' :: rest => digits? rest
  | rest => some ([], rest)

/-- The digits of a power of ten as a number. -/
def exponentDigits? (rest : List Char) : Option Nat :=
  match digits? rest with
  | some (digits, []) => some (Nat.ofDigitChars 10 digits 0)
  | _ => none

/-- The power of ten up to the end of the text, if there is one. -/
def exponent? : List Char → Option (Option Int)
  | [] => some none
  | mark :: rest =>
      if mark = 'e' ∨ mark = 'E' then
        match rest with
        | '-' :: rest => (exponentDigits? rest).map fun exponent => some (-(exponent : Int))
        | '+' :: rest => (exponentDigits? rest).map fun exponent => some (exponent : Int)
        | rest => (exponentDigits? rest).map fun exponent => some (exponent : Int)
      else
        none

/-- A literal without its sign. -/
def parseUnsigned? (negative : Bool) (text : List Char) : Option Number := do
  let (whole, rest) ← whole? text
  let (fraction, rest) ← fraction? rest
  let exponent ← exponent? rest
  return ⟨negative, Nat.ofDigitChars 10 (whole ++ fraction) 0, fraction.length, exponent⟩

/-- Read a literal. -/
def parse? : List Char → Option Number
  | '-' :: rest => parseUnsigned? true rest
  | text => parseUnsigned? false text

/-- The last `width` digits of a number. -/
def lastDigits (width number : Nat) : List Char :=
  let digits := Nat.toDigits 10 (number % Nat.pow 10 width)
  List.replicate (width - digits.length) '0' ++ digits

/-- The digits with the point among them. -/
def mantissa (number : Number) : List Char :=
  if number.scale = 0 then
    Nat.toDigits 10 number.digits
  else
    Nat.toDigits 10 (number.digits / Nat.pow 10 number.scale) ++
      '.' :: lastDigits number.scale number.digits

/-- The power of ten, with its sign. -/
def exponentText : Option Int → List Char
  | none => []
  | some exponent =>
      'e' :: (if exponent < 0 then '-' else '+') :: Nat.toDigits 10 exponent.natAbs

/-- Write a literal. -/
def render (number : Number) : String :=
  let text := number.mantissa ++ exponentText number.exponent
  String.ofList (if number.negative then '-' :: text else text)

end Number

end Backpatch.Json
