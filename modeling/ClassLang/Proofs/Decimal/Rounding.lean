import ClassLang.Decimal.Shortest
import Mathlib.Algebra.Order.Floor.Semifield
import Mathlib.Data.Int.Log
import Mathlib.Data.Rat.Floor
import Mathlib.Tactic.FieldSimp
import Mathlib.Tactic.Positivity

/-! # Rounding quotients

The value nearest to a quotient depends on the quotient alone and not on the two numbers that
write it. So a decimal fraction is read as the same value however many zeros it ends with.
-/

namespace ClassLang.Decimal

/-! ## Powers -/

theorem scale_pos {base : Nat} (hbase : 0 < base) (exponent : Int) : 0 < scale base exponent :=
  Nat.pow_pos hbase

/-- The two powers that stand for one with a sign have this one as their quotient. -/
theorem scale_eq_zpow_mul {base : Nat} (hbase : 0 < base) (exponent : Int) :
    (scale base exponent : ℚ) = (base : ℚ) ^ exponent * scale base (-exponent) := by
  have hne : (base : ℚ) ≠ 0 := by positivity
  unfold scale
  push_cast [Nat.pow_eq]
  rcases Int.le_total 0 exponent with hle | hle
  · rw [Int.toNat_of_nonpos (Int.neg_nonpos_of_nonneg hle), pow_zero, mul_one, ← zpow_natCast,
      Int.toNat_of_nonneg hle]
  · rw [Int.toNat_of_nonpos hle, pow_zero, ← zpow_natCast, Int.toNat_of_nonneg (by omega),
      ← zpow_add₀ hne, Int.add_right_neg, zpow_zero]

namespace Binary64

variable {numerator denominator factor : Nat}

/-- Whether a quotient lies below a power can be told without division. -/
theorem mul_scale_lt_iff (hdenominator : 0 < denominator) (exponent : Int) :
    numerator * scale 2 (-exponent) < denominator * scale 2 exponent ↔
      (numerator / denominator : ℚ) < 2 ^ exponent := by
  have hscale := scale_eq_zpow_mul (by decide : 0 < 2) exponent
  have hpos : (0 : ℚ) < scale 2 (-exponent) := by exact_mod_cast scale_pos (by decide) _
  have hdenominator' : (0 : ℚ) < denominator := by exact_mod_cast hdenominator
  rw [← Nat.cast_lt (α := ℚ), Nat.cast_mul, Nat.cast_mul, hscale, div_lt_iff₀ hdenominator',
    mul_comm (denominator : ℚ), mul_right_comm, mul_lt_mul_iff_left₀ hpos]
  rfl

/-- A quotient lies between the powers that its parts lie between. -/
theorem quotient_between (hnumerator : 0 < numerator) (hdenominator : 0 < denominator) :
    (2 : ℚ) ^ ((numerator.log2 : Int) - denominator.log2 - 1) < numerator / denominator ∧
      (numerator / denominator : ℚ) < 2 ^ ((numerator.log2 : Int) - denominator.log2 + 1) := by
  have hdenominator' : (0 : ℚ) < denominator := by exact_mod_cast hdenominator
  have hnumeratorLow : (2 : ℚ) ^ numerator.log2 ≤ numerator := by
    exact_mod_cast Nat.log2_self_le hnumerator.ne'
  have hnumeratorHigh : (numerator : ℚ) < 2 ^ (numerator.log2 + 1) := by
    exact_mod_cast Nat.lt_log2_self
  have hdenominatorLow : (2 : ℚ) ^ denominator.log2 ≤ denominator := by
    exact_mod_cast Nat.log2_self_le hdenominator.ne'
  have hdenominatorHigh : (denominator : ℚ) < 2 ^ (denominator.log2 + 1) := by
    exact_mod_cast Nat.lt_log2_self
  have hlow : (2 : ℚ) ^ ((numerator.log2 : Int) - denominator.log2 - 1) =
      2 ^ numerator.log2 / 2 ^ (denominator.log2 + 1) := by
    rw [Int.sub_sub, ← Nat.cast_succ, zpow_sub₀ two_ne_zero, zpow_natCast, zpow_natCast]
  have hhigh : (2 : ℚ) ^ ((numerator.log2 : Int) - denominator.log2 + 1) =
      2 ^ (numerator.log2 + 1) / 2 ^ denominator.log2 := by
    rw [sub_add_eq_add_sub, ← Nat.cast_succ, zpow_sub₀ two_ne_zero, zpow_natCast, zpow_natCast]
  rw [hlow, hhigh]
  constructor
  · exact div_lt_div₀' hnumeratorLow hdenominatorHigh (by positivity) hdenominator'
  · exact div_lt_div₀ hnumeratorHigh hdenominatorLow (by positivity) (by positivity)

/-- The exponent in which a quotient is rounded is that of its first binary digit, so many digits
further down. -/
theorem unitExponent_eq (hnumerator : 0 < numerator) (hdenominator : 0 < denominator) :
    unitExponent numerator denominator =
      max (Int.log 2 (numerator / denominator : ℚ) - 52) (-1074) := by
  have hpos : (0 : ℚ) < numerator / denominator := by positivity
  obtain ⟨hlow, hhigh⟩ := quotient_between hnumerator hdenominator
  have hlogLow : (numerator.log2 : Int) - denominator.log2 - 1 ≤
      Int.log 2 (numerator / denominator : ℚ) := by
    rw [← Int.zpow_le_iff_le_log (by decide) hpos, Nat.cast_ofNat]
    exact hlow.le
  have hlogHigh : Int.log 2 (numerator / denominator : ℚ) <
      (numerator.log2 : Int) - denominator.log2 + 1 := by
    rw [← Int.lt_zpow_iff_log_lt (by decide) hpos, Nat.cast_ofNat]
    exact hhigh
  have hguess : (numerator / denominator : ℚ) < 2 ^ ((numerator.log2 : Int) - denominator.log2) ↔
      Int.log 2 (numerator / denominator : ℚ) < (numerator.log2 : Int) - denominator.log2 := by
    rw [← Int.lt_zpow_iff_log_lt (by decide) hpos, Nat.cast_ofNat]
  unfold unitExponent
  simp only [mul_scale_lt_iff hdenominator, hguess]
  split <;> congr 2 <;> omega

/-! ## Scaling -/

theorem roundDiv_mul_right (hfactor : 0 < factor) :
    roundDiv (numerator * factor) (denominator * factor) = roundDiv numerator denominator := by
  have hlt : 2 * (numerator % denominator * factor) < denominator * factor ↔
      2 * (numerator % denominator) < denominator := by
    rw [← Nat.mul_assoc, Nat.mul_lt_mul_right hfactor]
  have heq : 2 * (numerator % denominator * factor) = denominator * factor ↔
      2 * (numerator % denominator) = denominator := by
    rw [← Nat.mul_assoc, Nat.mul_left_inj hfactor.ne']
  unfold roundDiv
  simp only [Nat.mul_div_mul_right _ _ hfactor, Nat.mul_mod_mul_right, hlt, heq]

theorem unitExponent_mul_right (hnumerator : 0 < numerator) (hdenominator : 0 < denominator)
    (hfactor : 0 < factor) :
    unitExponent (numerator * factor) (denominator * factor) =
      unitExponent numerator denominator := by
  have hfactor' : (factor : ℚ) ≠ 0 := by positivity
  rw [unitExponent_eq (Nat.mul_pos hnumerator hfactor) (Nat.mul_pos hdenominator hfactor),
    unitExponent_eq hnumerator hdenominator, Nat.cast_mul, Nat.cast_mul,
    mul_div_mul_right _ _ hfactor']

/-- A common factor does not change the value that is nearest to a quotient. -/
theorem ofQuotient_mul_right (hdenominator : 0 < denominator) (hfactor : 0 < factor) :
    ofQuotient (numerator * factor) (denominator * factor) = ofQuotient numerator denominator := by
  rcases Nat.eq_zero_or_pos numerator with rfl | hnumerator
  · rw [Nat.zero_mul, ofQuotient, ofQuotient, if_pos rfl, if_pos rfl]
  · have hrounded (exponent : Int) :
        roundDiv (numerator * factor * scale 2 (-exponent))
            (denominator * factor * scale 2 exponent) =
          roundDiv (numerator * scale 2 (-exponent)) (denominator * scale 2 exponent) := by
      rw [Nat.mul_right_comm numerator, Nat.mul_right_comm denominator, roundDiv_mul_right hfactor]
    unfold ofQuotient
    simp only [if_neg (Nat.mul_pos hnumerator hfactor).ne', if_neg hnumerator.ne',
      unitExponent_mul_right hnumerator hdenominator hfactor, hrounded]

/-- Equal quotients are rounded to the same value. -/
theorem ofQuotient_congr {numerator' denominator' : Nat} (hdenominator : 0 < denominator)
    (hdenominator' : 0 < denominator')
    (hquotient : numerator * denominator' = numerator' * denominator) :
    ofQuotient numerator denominator = ofQuotient numerator' denominator' := by
  rw [← ofQuotient_mul_right hdenominator hdenominator', hquotient,
    Nat.mul_comm denominator, ofQuotient_mul_right hdenominator' hdenominator]

/-- Equal decimal fractions are read as the same value. -/
theorem ofDecimal_congr {digits digits' : Nat} {exponent exponent' : Int}
    (hvalue : (digits * 10 ^ exponent : ℚ) = digits' * 10 ^ exponent') :
    ofDecimal digits exponent = ofDecimal digits' exponent' := by
  have hten : 0 < 10 := by decide
  refine ofQuotient_congr (scale_pos hten _) (scale_pos hten _) ?_
  have hscale := scale_eq_zpow_mul hten exponent
  have hscale' := scale_eq_zpow_mul hten exponent'
  rw [← Nat.cast_inj (R := ℚ)]
  push_cast at hscale hscale' ⊢
  rw [hscale, hscale']
  calc
    (digits * (10 ^ exponent * scale 10 (-exponent)) * scale 10 (-exponent') : ℚ) =
        digits * 10 ^ exponent * (scale 10 (-exponent) * scale 10 (-exponent')) := by ring
    _ = digits' * (10 ^ exponent' * scale 10 (-exponent')) * scale 10 (-exponent) := by
      rw [hvalue]
      ring

end Binary64

end ClassLang.Decimal
