/-! # Binary floating point values

The values that a floating point literal can have: the non-negative numbers of
the 64-bit binary format, and infinity. A decimal fraction is read as the value
nearest to it, an exact tie going to the value with the even significand.
-/

namespace ClassLang.Decimal

/-- A finite value is `significand * 2 ^ exponent`. Each value has one form:
the exponent is at least -1074, and the significand has 53 bits unless the
exponent is least. -/
inductive Binary64 where
  | finite (significand : Nat) (exponent : Int)
  | infinity
deriving DecidableEq, Repr

/-- The number that a list of decimal digits writes. -/
def digitsValue (digits : List Char) : Nat :=
  digits.foldl (fun value c => value * 10 + (c.toNat - '0'.toNat)) 0

/-- The power of a base, or one where the exponent is negative. -/
def scale (base : Nat) (exponent : Int) : Nat := Nat.pow base exponent.toNat

namespace Binary64

/-- The quotient of two numbers rounded to the nearest whole number, ties to even. -/
def roundDiv (numerator denominator : Nat) : Nat :=
  let quotient := numerator / denominator
  let twice := 2 * (numerator % denominator)
  if twice < denominator then quotient
  else if twice = denominator ∧ quotient % 2 = 0 then quotient
  else quotient + 1

/-- The exponent of the binary digit in which a positive quotient is rounded:
53 bits remain above it, but no digit is finer than the least exponent. -/
def unitExponent (numerator denominator : Nat) : Int :=
  let guess : Int := (Nat.log2 numerator : Int) - (Nat.log2 denominator : Int)
  -- The quotient lies between `2 ^ (guess - 1)` and `2 ^ (guess + 1)`.
  let top :=
    if numerator * scale 2 (-guess) < denominator * scale 2 guess then guess - 1 else guess
  max (top - 52) (-1074)

/-- The value nearest to the quotient of two numbers, the second one positive. -/
def ofQuotient (numerator denominator : Nat) : Binary64 :=
  if numerator = 0 then .finite 0 (-1074)
  else
    let exponent := unitExponent numerator denominator
    let rounded :=
      roundDiv (numerator * scale 2 (-exponent)) (denominator * scale 2 exponent)
    let (significand, exponent) :=
      if rounded = scale 2 53 then (scale 2 52, exponent + 1) else (rounded, exponent)
    if exponent ≤ 971 then .finite significand exponent else .infinity

/-- The value nearest to `digits * 10 ^ exponent`. -/
def ofDecimal (digits : Nat) (exponent : Int) : Binary64 :=
  ofQuotient (digits * scale 10 exponent) (scale 10 (-exponent))

/-- The value of a literal: digits with at most one point among them. -/
def ofLiteral (literal : List Char) : Binary64 :=
  let whole := literal.takeWhile (· != '.')
  let fraction := (literal.dropWhile (· != '.')).drop 1
  ofDecimal (digitsValue (whole ++ fraction)) (-(fraction.length : Int))

end Binary64

end ClassLang.Decimal
