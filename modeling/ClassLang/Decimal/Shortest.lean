import ClassLang.Decimal.Binary64

/-! # Shortest decimal digits

Among the decimal fractions that are read back as a given value, the ones with
the fewest digits, and of these the nearest. For each number of digits only
the two neighbours of the value on that decimal grid can qualify first.
-/

namespace ClassLang.Decimal

/-- The fraction `digits * 10 ^ exponent`. -/
structure Scientific where
  digits : Nat
  exponent : Int
deriving DecidableEq, Repr

namespace Scientific

/-- The value that the fraction is read as. -/
def value (s : Scientific) : Binary64 := .ofDecimal s.digits s.exponent

/-- Leave out the zeros at the end of the digits. The fuel bounds how many. -/
def trimZeros : (fuel : Nat) → Scientific → Scientific
  | 0, s => s
  | fuel + 1, s =>
      if s.digits ≠ 0 ∧ s.digits % 10 = 0 then trimZeros fuel ⟨s.digits / 10, s.exponent + 1⟩
      else s

end Scientific

namespace Binary64

/-- The quotient `significand * 2 ^ exponent` as numerator and denominator. -/
def quotient (significand : Nat) (exponent : Int) : Nat × Nat :=
  (significand * scale 2 exponent, scale 2 (-exponent))

/-- The power of ten at or below a positive quotient: the exponent of its first digit.
Searched from the estimate that the binary exponents give, which is off by at most one. -/
def leadingExponent (numerator denominator : Nat) : Int :=
  let bits : Int := (Nat.log2 numerator : Int) - (Nat.log2 denominator : Int)
  let guess := Int.fdiv (bits * 30103) 100000
  let reaches (e : Int) : Bool := denominator * scale 10 e ≤ numerator * scale 10 (-e)
  if reaches (guess + 1) then guess + 1
  else if reaches guess then guess
  else guess - 1

/-- The neighbours of a quotient on the grid of multiples of `10 ^ exponent`,
the nearer first; of two equally near the even one first. -/
def neighbours (numerator denominator : Nat) (exponent : Int) : List Scientific :=
  let numerator := numerator * scale 10 (-exponent)
  let denominator := denominator * scale 10 exponent
  let below := numerator / denominator
  let twice := 2 * (numerator % denominator)
  if twice < denominator ∨ (twice = denominator ∧ below % 2 = 0) then
    [⟨below, exponent⟩, ⟨below + 1, exponent⟩]
  else [⟨below + 1, exponent⟩, ⟨below, exponent⟩]

/-- Try the grids with the given numbers of digits in turn and take the first
neighbour that is read back as the value. -/
def firstReadBack (value : Binary64) (numerator denominator : Nat) (leading : Int) :
    List Nat → Option Scientific
  | [] => none
  | digits :: more =>
      ((neighbours numerator denominator (leading + 1 - digits)).find? (·.value = value)).or
        (firstReadBack value numerator denominator leading more)

/-- The exact digits of a finite value. -/
def exact (significand : Nat) (exponent : Int) : Scientific :=
  ⟨significand * scale 2 exponent * scale 5 (-exponent), min exponent 0⟩

/-- The shortest digits that are read back as the finite value; seventeen always suffice. -/
def shortest (significand : Nat) (exponent : Int) : Scientific :=
  if significand = 0 then ⟨0, 0⟩
  else
    let (numerator, denominator) := quotient significand exponent
    let leading := leadingExponent numerator denominator
    let found := firstReadBack (.finite significand exponent) numerator denominator leading
      ((List.range 17).map (· + 1))
    (found.getD (exact significand exponent)).trimZeros 1100

end Binary64

end ClassLang.Decimal
