import ClassLang.Proofs.Decimal.Rounding

/-! # Values and their digits

Each finite value has one form, in which rounding gives it and from which rounding does not
change it. So its exact digits are read back as the value, and its shortest digits, which are tried
first, are as well.
-/

namespace ClassLang.Decimal

namespace Binary64

variable {numerator denominator significand : Nat} {exponent : Int}

/-- The form in which a finite value is given. -/
structure IsCanonical (significand : Nat) (exponent : Int) : Prop where
  significand_lt : significand < 2 ^ 53
  le_exponent : -1074 ≤ exponent
  exponent_le : exponent ≤ 971
  /-- The significand has all its digits unless the exponent is least. -/
  full : 2 ^ 52 ≤ significand ∨ exponent = -1074

/-! ## Rounding -/

theorem roundDiv_between (numerator denominator : Nat) :
    numerator / denominator ≤ roundDiv numerator denominator ∧
      roundDiv numerator denominator ≤ numerator / denominator + 1 := by
  unfold roundDiv
  dsimp only
  split
  · omega
  · split <;> omega

theorem roundDiv_mul_self {factor : Nat} (hfactor : 0 < factor) (number : Nat) :
    roundDiv (number * factor) factor = number := by
  simp [roundDiv, Nat.mul_div_cancel _ hfactor, hfactor]

/-- A quotient in units of a power is below another power if it is below both of them. -/
theorem scaled_lt_iff (hdenominator : 0 < denominator) (exponent : Int) (bits : Nat) :
    numerator * scale 2 (-exponent) < 2 ^ bits * (denominator * scale 2 exponent) ↔
      (numerator / denominator : ℚ) < 2 ^ (exponent + bits) := by
  have hscale := scale_eq_zpow_mul (by decide : 0 < 2) exponent
  have hpos : (0 : ℚ) < scale 2 (-exponent) := by exact_mod_cast scale_pos (by decide) _
  have hdenominator' : (0 : ℚ) < denominator := by exact_mod_cast hdenominator
  have hsplit : (2 ^ bits * (denominator * (2 ^ exponent * scale 2 (-exponent))) : ℚ) =
      2 ^ (exponent + bits) * denominator * scale 2 (-exponent) := by
    rw [zpow_add₀ two_ne_zero, zpow_natCast]
    ring
  rw [← Nat.cast_lt (α := ℚ), div_lt_iff₀ hdenominator']
  push_cast at hscale ⊢
  rw [hscale, hsplit, mul_lt_mul_iff_left₀ hpos]

/-- In its unit a quotient has at most 53 bits before the point, and no fewer unless the unit is
the least one. -/
theorem scaled_bounds (hnumerator : 0 < numerator) (hdenominator : 0 < denominator) :
    numerator * scale 2 (-unitExponent numerator denominator) <
        2 ^ 53 * (denominator * scale 2 (unitExponent numerator denominator)) ∧
      (2 ^ 52 * (denominator * scale 2 (unitExponent numerator denominator)) ≤
          numerator * scale 2 (-unitExponent numerator denominator) ∨
        unitExponent numerator denominator = -1074) := by
  have hpos : (0 : ℚ) < numerator / denominator := by positivity
  have hunit := unitExponent_eq hnumerator hdenominator
  rw [scaled_lt_iff hdenominator, ← Nat.not_lt, scaled_lt_iff hdenominator, not_lt]
  have hhigh := Int.lt_zpow_iff_log_lt (b := 2) (x := unitExponent numerator denominator + 53)
    (by decide) hpos
  have hlow := Int.zpow_le_iff_le_log (b := 2) (x := unitExponent numerator denominator + 52)
    (by decide) hpos
  rw [Nat.cast_ofNat] at hhigh hlow
  refine ⟨hhigh.mpr (by omega), ?_⟩
  rcases Int.le_total (Int.log 2 (numerator / denominator : ℚ) - 52) (-1074) with hle | hle
  · exact .inr (by omega)
  · exact .inl (hlow.mpr (by omega))

theorem ofQuotient_of_pos (hnumerator : 0 < numerator) :
    ofQuotient numerator denominator =
      let unit := unitExponent numerator denominator
      let rounded := roundDiv (numerator * scale 2 (-unit)) (denominator * scale 2 unit)
      if rounded = scale 2 53 then
        if unit + 1 ≤ 971 then .finite (scale 2 52) (unit + 1) else .infinity
      else if unit ≤ 971 then .finite rounded unit else .infinity := by
  unfold ofQuotient
  rw [if_neg hnumerator.ne']
  dsimp only
  split <;> rfl

/-- Rounding gives values in their form. -/
theorem canonical_of_ofQuotient (hdenominator : 0 < denominator)
    (hvalue : ofQuotient numerator denominator = .finite significand exponent) :
    IsCanonical significand exponent := by
  rcases Nat.eq_zero_or_pos numerator with rfl | hnumerator
  · rw [ofQuotient, if_pos rfl] at hvalue
    obtain ⟨rfl, rfl⟩ := Binary64.finite.inj hvalue
    exact ⟨by decide, by decide, by decide, .inr rfl⟩
  · have hunit := unitExponent_eq hnumerator hdenominator
    obtain ⟨hlt, hfull⟩ := scaled_bounds hnumerator hdenominator
    rw [ofQuotient_of_pos hnumerator] at hvalue
    dsimp only at hvalue
    generalize unitExponent numerator denominator = unit at hunit hlt hfull hvalue
    have hpos : 0 < denominator * scale 2 unit :=
      Nat.mul_pos hdenominator (scale_pos (by decide) _)
    generalize numerator * scale 2 (-unit) = dividend at hlt hfull hvalue
    generalize denominator * scale 2 unit = divisor at hpos hlt hfull hvalue
    have hquotient := (Nat.div_lt_iff_lt_mul hpos).mpr hlt
    rw [← Nat.le_div_iff_mul_le hpos] at hfull
    obtain ⟨hbelow, habove⟩ := roundDiv_between dividend divisor
    have hscale : scale 2 53 = 2 ^ 53 := rfl
    -- a significand of 54 bits gives way to one of 53 in the next unit
    split at hvalue
    next hcarry =>
      split at hvalue
      next hle =>
        obtain ⟨rfl, rfl⟩ := Binary64.finite.inj hvalue
        exact ⟨by decide, by omega, hle, .inl (Nat.le_refl _)⟩
      next => cases hvalue
    next hcarry =>
      split at hvalue
      next hle =>
        obtain ⟨rfl, rfl⟩ := Binary64.finite.inj hvalue
        exact ⟨by omega, by omega, hle, by omega⟩
      next => cases hvalue

theorem unitExponent_of_canonical (hcanonical : IsCanonical significand exponent)
    (hpos : 0 < significand) :
    unitExponent (significand * scale 2 exponent) (scale 2 (-exponent)) = exponent := by
  have hscale (exponent : Int) : 0 < scale 2 exponent := scale_pos (by decide) exponent
  have hquotient : ((significand * scale 2 exponent : Nat) / (scale 2 (-exponent) : Nat) : ℚ) =
      significand * 2 ^ exponent := by
    have hne : (scale 2 (-exponent) : ℚ) ≠ 0 := by exact_mod_cast (hscale _).ne'
    have hpower := scale_eq_zpow_mul (by decide : 0 < 2) exponent
    push_cast at hpower ⊢
    rw [hpower, ← mul_assoc, mul_div_cancel_right₀ _ hne]
  have hpower : (0 : ℚ) < 2 ^ exponent := zpow_pos two_pos _
  have hvalue : (0 : ℚ) < significand * 2 ^ exponent := by positivity
  have hhigh : Int.log 2 (significand * 2 ^ exponent : ℚ) < exponent + 53 := by
    have hlt : (significand : ℚ) < 2 ^ 53 := by exact_mod_cast hcanonical.significand_lt
    rw [← Int.lt_zpow_iff_log_lt (by decide) hvalue, Nat.cast_ofNat, zpow_add₀ two_ne_zero,
      mul_comm]
    exact (mul_lt_mul_iff_right₀ hpower).mpr hlt
  rw [unitExponent_eq (Nat.mul_pos hpos (hscale _)) (hscale _), hquotient]
  rcases hcanonical.full with hfull | hleast
  · have hlow : exponent + 52 ≤ Int.log 2 (significand * 2 ^ exponent : ℚ) := by
      have hle : (2 ^ 52 : ℚ) ≤ significand := by exact_mod_cast hfull
      rw [← Int.zpow_le_iff_le_log (by decide) hvalue, Nat.cast_ofNat, zpow_add₀ two_ne_zero,
        mul_comm]
      exact (mul_le_mul_iff_left₀ hpower).mpr hle
    have hle := hcanonical.le_exponent
    omega
  · omega

/-- Rounding does not change a value in its form. -/
theorem ofQuotient_of_canonical (hcanonical : IsCanonical significand exponent) :
    ofQuotient (significand * scale 2 exponent) (scale 2 (-exponent)) =
      .finite significand exponent := by
  have hscale (exponent : Int) : 0 < scale 2 exponent := scale_pos (by decide) exponent
  rcases Nat.eq_zero_or_pos significand with rfl | hpos
  · have hleast := hcanonical.full.resolve_left (by decide)
    rw [Nat.zero_mul, ofQuotient, if_pos rfl, hleast]
  · have hrounded : roundDiv (significand * scale 2 exponent * scale 2 (-exponent))
        (scale 2 (-exponent) * scale 2 exponent) = significand := by
      rw [Nat.mul_assoc, Nat.mul_comm (scale 2 (-exponent))]
      exact roundDiv_mul_self (Nat.mul_pos (hscale _) (hscale _)) significand
    have hcarry : significand ≠ scale 2 53 := hcanonical.significand_lt.ne
    unfold ofQuotient
    simp only [if_neg (Nat.mul_pos hpos (hscale _)).ne',
      unitExponent_of_canonical hcanonical hpos, hrounded, if_neg hcarry,
      if_pos hcanonical.exponent_le]

/-! ## Digits -/

/-- The exact digits of a value are read back as the value. -/
theorem value_exact (hcanonical : IsCanonical significand exponent) :
    (exact significand exponent).value = .finite significand exponent := by
  have hpower : scale 10 (-exponent) = scale 5 (-exponent) * scale 2 (-exponent) :=
    Nat.mul_pow 5 2 _
  have hnumerator : scale 10 (min exponent 0) = 1 := by
    rw [scale, Int.toNat_of_nonpos (Int.min_le_right _ _)]
  have hdenominator : scale 10 (-min exponent 0) = scale 10 (-exponent) := by
    have hexponent : (-min exponent 0).toNat = (-exponent).toNat := by omega
    rw [scale, hexponent, scale]
  rw [← ofQuotient_of_canonical hcanonical, exact, Scientific.value, ofDecimal, hnumerator,
    hdenominator]
  refine ofQuotient_congr (scale_pos (by decide) _) (scale_pos (by decide) _) ?_
  rw [hpower, Nat.mul_one, Nat.mul_assoc (significand * scale 2 exponent)]

end Binary64

/-- Zeros at the end of the digits do not matter. -/
theorem Scientific.value_trimZeros (fuel : Nat) (fraction : Scientific) :
    (fraction.trimZeros fuel).value = fraction.value := by
  fun_induction trimZeros fuel fraction with
  | case1 => rfl
  | case2 fuel fraction htrim ih =>
      have hdigits : fraction.digits = fraction.digits / 10 * 10 := by omega
      rw [ih, value, value]
      refine Binary64.ofDecimal_congr ?_
      dsimp only
      nth_rewrite 2 [hdigits]
      rw [zpow_add₀ (by decide), Nat.cast_mul]
      push_cast
      ring
  | case3 => rfl

namespace Binary64

variable {significand : Nat} {exponent : Int}

/-- What is tried first is taken only if it is read back. -/
theorem value_of_firstReadBack {value : Binary64} {numerator denominator : Nat} {leading : Int}
    {tried : List Nat} {fraction : Scientific}
    (hfound : firstReadBack value numerator denominator leading tried = some fraction) :
    fraction.value = value := by
  induction tried with
  | nil => cases hfound
  | cons digits more ih =>
      rcases Option.or_eq_some_iff.mp hfound with hfind | ⟨-, hmore⟩
      · simpa using List.find?_some hfind
      · exact ih hmore

/-- The shortest digits of a value are read back as the value. -/
theorem value_shortest (hcanonical : IsCanonical significand exponent) :
    (shortest significand exponent).value = .finite significand exponent := by
  unfold shortest
  split
  next hzero =>
    have hleast := hcanonical.full.resolve_left (by omega)
    rw [hzero, hleast]
    decide
  next =>
    dsimp only
    rw [Scientific.value_trimZeros]
    cases hfound : firstReadBack _ _ _ _ _ with
    | none => exact value_exact hcanonical
    | some fraction => exact value_of_firstReadBack hfound

end Binary64

end ClassLang.Decimal
