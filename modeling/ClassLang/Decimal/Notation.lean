import ClassLang.Decimal.Shortest

/-! # Writing floating point values

A value is written with its shortest digits, positionally when the exponent of
the first digit lies in the range of `FloatFormat`, otherwise in scientific
form with a signed exponent.
-/

namespace ClassLang.Decimal

/-- The choices that fix how digits and exponent become text. -/
structure FloatFormat where
  /-- The least exponent of the first digit that is written positionally. -/
  leastPositional : Int
  /-- The first exponent that is again written in scientific form. -/
  endPositional : Int
  /-- The least number of digits of a written exponent. -/
  exponentWidth : Nat
  /-- The text of infinity. -/
  infinity : String

/-- Values from one ten-thousandth up to below ten to the sixteenth are written
positionally; an exponent has a sign and at least two digits. -/
def FloatFormat.standard : FloatFormat := ⟨-4, 16, 2, "inf"⟩

/-- Digits with a point after the first `whole` of them, zeros filling the gap
on either side and at least one digit standing after the point. -/
def positional (digits : List Char) (whole : Int) : List Char :=
  if whole ≤ 0 then '0' :: '.' :: (List.replicate (-whole).toNat '0' ++ digits)
  else
    let front := digits.take whole.toNat
    let back := digits.drop whole.toNat
    front ++ List.replicate (whole.toNat - front.length) '0' ++
      '.' :: (if back.isEmpty then ['0'] else back)

/-- An exponent with its sign, filled with zeros to `width` digits. -/
def signedExponent (width : Nat) (exponent : Int) : List Char :=
  let digits := Nat.toDigits 10 exponent.natAbs
  (if exponent < 0 then '-' else '+') :: (List.replicate (width - digits.length) '0' ++ digits)

/-- Digits with a point after the first, if others follow, and the exponent of the first. -/
def scientific (width : Nat) (digits : List Char) (leading : Int) : List Char :=
  digits.take 1 ++ (if digits.length ≤ 1 then [] else '.' :: digits.drop 1) ++
    'e' :: signedExponent width leading

/-- The text of a value. -/
def Binary64.write (format : FloatFormat) : Binary64 → String
  | .infinity => format.infinity
  | .finite significand exponent =>
      let short := shortest significand exponent
      let digits := Nat.toDigits 10 short.digits
      let leading := short.exponent + digits.length - 1
      String.ofList <|
        if format.leastPositional ≤ leading ∧ leading < format.endPositional then
          positional digits (leading + 1)
        else scientific format.exponentWidth digits leading

instance : ToString Binary64 where
  toString value := value.write .standard

end ClassLang.Decimal
