import ClassLang.Decimal.Notation
import ClassLang.Proofs.Decimal.Exact
import Mathlib.Data.List.TakeWhile

/-! # Reading written values

The text of a value can be read back: its digits, the place of the point and the exponent give
the shortest digits again, and these give the value. So values with the same text are the same.
-/

namespace ClassLang.Decimal

variable {mark : Char} {front back text digits mantissa power whole fraction : List Char}

/-! ## Digits -/

theorem digitsValue_append (front back : List Char) :
    digitsValue (front ++ back) = digitsValue front * 10 ^ back.length + digitsValue back := by
  have hfold (start : Nat) : back.foldl (fun value c => value * 10 + (c.toNat - '0'.toNat)) start =
      start * 10 ^ back.length + digitsValue back := by
    unfold digitsValue
    induction back generalizing start with
    | nil => simp
    | cons c back ih =>
        rw [List.foldl_cons, List.foldl_cons, ih, ih (0 * 10 + _), List.length_cons, Nat.pow_succ]
        ring
  rw [digitsValue, List.foldl_append, hfold]
  rfl

theorem digitsValue_replicate (count : Nat) : digitsValue (.replicate count '0') = 0 := by
  induction count with
  | zero => rfl
  | succ count ih => rw [List.replicate_succ', digitsValue_append, ih]; rfl

theorem digitsValue_toDigits (number : Nat) : digitsValue (Nat.toDigits 10 number) = number := by
  have hdigits := Nat.ofDigitChars_ten_toDigits (n := number)
  simpa [digitsValue, Nat.ofDigitChars_eq_foldl, Nat.mul_comm] using hdigits

theorem digitsValue_toString (number : Nat) : digitsValue (toString number).toList = number := by
  rw [Nat.toString_eq_ofList_toDigits, String.toList_ofList, digitsValue_toDigits]

theorem isDigit_toDigits {c : Char} {number : Nat} (hmem : c ∈ Nat.toDigits 10 number) :
    c.isDigit :=
  Nat.isDigit_of_mem_toDigits (by decide) (by decide) hmem

/-! ## Marks -/

/-- A text up to the first `mark`, and what stands behind the mark. -/
def splitAtMark (mark : Char) (text : List Char) : List Char × List Char :=
  (text.takeWhile (· != mark), (text.dropWhile (· != mark)).drop 1)

theorem splitAtMark_append (hfront : mark ∉ front) :
    splitAtMark mark (front ++ mark :: back) = (front, back) := by
  have hne : ∀ c ∈ front, (c != mark) = true := fun c hmem =>
    bne_iff_ne.mpr fun heq => hfront (heq ▸ hmem)
  simp [splitAtMark, List.takeWhile_append_of_pos hne, List.dropWhile_append_of_pos hne]

theorem splitAtMark_of_notMem (htext : mark ∉ text) : splitAtMark mark text = (text, []) := by
  have hne : ∀ c ∈ text, (c != mark) = true := fun c hmem =>
    bne_iff_ne.mpr fun heq => htext (heq ▸ hmem)
  simp [splitAtMark, List.takeWhile_eq_self_iff.mpr hne, List.dropWhile_eq_nil_iff.mpr hne]

/-! ## Reading -/

/-- The exponent that a signed number writes, and none if nothing is written. -/
def exponentValue : List Char → Int
  | [] => 0
  | '-' :: digits => -(digitsValue digits : Int)
  | _ :: digits => digitsValue digits

namespace Binary64

/-- The value that a text is read as: digits with a point and an exponent, or infinity. -/
def ofText (text : List Char) : Binary64 :=
  if text = ['i', 'n', 'f'] then .infinity
  else
    let (mantissa, power) := splitAtMark 'e' text
    let (whole, fraction) := splitAtMark '.' mantissa
    .ofDecimal (digitsValue (whole ++ fraction)) (exponentValue power - fraction.length)

/-- A finite value begins with a digit. -/
structure IsMantissa (mantissa whole fraction : List Char) : Prop where
  digit : ∃ first rest, mantissa = first :: rest ∧ first.isDigit
  noExponent : 'e' ∉ mantissa
  split : splitAtMark '.' mantissa = (whole, fraction)

theorem IsMantissa.ofText_eq (hmantissa : IsMantissa mantissa whole fraction) :
    ofText mantissa = .ofDecimal (digitsValue (whole ++ fraction)) (-(fraction.length : Int)) := by
  obtain ⟨first, rest, rfl, hdigit⟩ := hmantissa.digit
  have hne : first :: rest ≠ ['i', 'n', 'f'] := by
    rintro ⟨⟩
    exact absurd hdigit (by decide)
  rw [ofText, if_neg hne, splitAtMark_of_notMem hmantissa.noExponent]
  simp [hmantissa.split, exponentValue]

theorem IsMantissa.ofText_append (hmantissa : IsMantissa mantissa whole fraction) :
    ofText (mantissa ++ 'e' :: power) =
      .ofDecimal (digitsValue (whole ++ fraction)) (exponentValue power - fraction.length) := by
  obtain ⟨first, rest, rfl, hdigit⟩ := hmantissa.digit
  have hne : first :: rest ++ 'e' :: power ≠ ['i', 'n', 'f'] := by
    intro heq
    obtain ⟨rfl, -⟩ := List.cons.inj heq
    exact absurd hdigit (by decide)
  rw [ofText, if_neg hne, splitAtMark_append hmantissa.noExponent]
  simp [hmantissa.split]

theorem not_mem_of_isDigit (hmark : mark.isDigit = false) (hdigits : ∀ c ∈ digits, c.isDigit) :
    mark ∉ digits := by
  intro hmem
  rw [hdigits mark hmem] at hmark
  cases hmark

theorem IsMantissa.point (hne : whole ≠ []) (hwhole : ∀ c ∈ whole, c.isDigit)
    (hfraction : ∀ c ∈ fraction, c.isDigit) :
    IsMantissa (whole ++ '.' :: fraction) whole fraction := by
  refine ⟨?_, ?_, splitAtMark_append (not_mem_of_isDigit (by decide) hwhole)⟩
  · obtain ⟨first, rest, rfl⟩ := List.exists_cons_of_ne_nil hne
    exact ⟨first, rest ++ '.' :: fraction, rfl, hwhole first List.mem_cons_self⟩
  · have hfront := @not_mem_of_isDigit 'e' _ (by decide) hwhole
    have hback := @not_mem_of_isDigit 'e' _ (by decide) hfraction
    simp [hfront, hback]

theorem IsMantissa.pointless (hne : whole ≠ []) (hwhole : ∀ c ∈ whole, c.isDigit) :
    IsMantissa whole whole [] := by
  refine ⟨?_, not_mem_of_isDigit (by decide) hwhole,
    splitAtMark_of_notMem (not_mem_of_isDigit (by decide) hwhole)⟩
  obtain ⟨first, rest, rfl⟩ := List.exists_cons_of_ne_nil hne
  exact ⟨first, rest, rfl, hwhole first List.mem_cons_self⟩

/-! ## Written values -/

section Digits

variable (number : Nat)

theorem exponentValue_signedExponent (width : Nat) (exponent : Int) :
    exponentValue (signedExponent width exponent) = exponent := by
  have hvalue (zeros : Nat) :
      digitsValue (.replicate zeros '0' ++ Nat.toDigits 10 exponent.natAbs) = exponent.natAbs := by
    rw [digitsValue_append, digitsValue_replicate, digitsValue_toDigits, Nat.zero_mul, Nat.zero_add]
  unfold signedExponent
  dsimp only
  by_cases hneg : exponent < 0
  · rw [if_pos hneg, exponentValue, hvalue]
    omega
  · rw [if_neg hneg, exponentValue, hvalue]
    · omega
    · decide

theorem isDigit_zeros {count : Nat} : ∀ c ∈ List.replicate count '0', c.isDigit := by
  intro c hmem
  rw [List.eq_of_mem_replicate hmem]
  rfl

section Point

variable {digits : List Char} (hdigit : ∀ c ∈ digits, c.isDigit)

include hdigit

/-- Zeros may stand before digits that stand behind the point. -/
theorem ofText_zeros_append (zeros : Nat) :
    ofText ('0' :: '.' :: (.replicate zeros '0' ++ digits)) =
      .ofDecimal (digitsValue digits) (-(zeros : Int) - digits.length) := by
  have hmantissa : IsMantissa ('0' :: '.' :: (.replicate zeros '0' ++ digits)) ['0']
      (.replicate zeros '0' ++ digits) :=
    .point (List.cons_ne_nil _ _) (List.forall_mem_singleton.mpr rfl)
      (List.forall_mem_append.mpr ⟨isDigit_zeros, hdigit⟩)
  have hdigits : digitsValue (['0'] ++ (.replicate zeros '0' ++ digits)) = digitsValue digits := by
    rw [← List.append_assoc, ← List.replicate_one, ← List.replicate_add, digitsValue_append,
      digitsValue_replicate, Nat.zero_mul, Nat.zero_add]
  rw [hmantissa.ofText_eq, hdigits, List.length_append, List.length_replicate]
  congr 1
  omega

/-- Each zero behind digits that stand before the point is a factor of ten. -/
theorem ofText_append_zeros (hne : digits ≠ []) (zeros : Nat) :
    ofText (digits ++ .replicate zeros '0' ++ '.' :: ['0']) =
      .ofDecimal (digitsValue digits) zeros := by
  have hmantissa : IsMantissa (digits ++ .replicate zeros '0' ++ '.' :: ['0'])
      (digits ++ .replicate zeros '0') ['0'] :=
    .point (by simp [hne]) (List.forall_mem_append.mpr ⟨hdigit, isDigit_zeros⟩)
      (List.forall_mem_singleton.mpr (by decide))
  have hdigits : digitsValue (digits ++ .replicate zeros '0' ++ ['0']) =
      digitsValue digits * 10 ^ zeros * 10 := by
    rw [digitsValue_append, digitsValue_append, digitsValue_replicate, List.length_replicate]
    rfl
  rw [hmantissa.ofText_eq, hdigits]
  refine ofDecimal_congr ?_
  rw [zpow_natCast]
  push_cast
  rw [List.length_singleton, mul_assoc]
  norm_num

/-- The point may stand anywhere among digits. -/
theorem ofText_take_drop {count : Nat} (hpos : 0 < count) (hcount : count ≤ digits.length) :
    ofText (digits.take count ++ '.' :: digits.drop count) =
      .ofDecimal (digitsValue digits) (count - digits.length) := by
  have hfront : 0 < (digits.take count).length := by
    rwa [List.length_take_of_le hcount]
  have hmantissa : IsMantissa (digits.take count ++ '.' :: digits.drop count) (digits.take count)
      (digits.drop count) :=
    .point (List.ne_nil_of_length_pos hfront)
      (fun c hmem => hdigit c (List.mem_of_mem_take hmem))
      (fun c hmem => hdigit c (List.mem_of_mem_drop hmem))
  rw [hmantissa.ofText_eq, List.take_append_drop, List.length_drop]
  congr 1
  omega

end Point

/-- Digits with a point are read as the fraction that they write. -/
theorem ofText_positional (whole : Int) :
    ofText (positional (Nat.toDigits 10 number) whole) =
      .ofDecimal number (whole - (Nat.toDigits 10 number).length) := by
  have hdigit : ∀ c ∈ Nat.toDigits 10 number, c.isDigit := fun c => isDigit_toDigits
  have hvalue := digitsValue_toDigits number
  have hne : Nat.toDigits 10 number ≠ [] := Nat.toDigits_ne_nil
  generalize Nat.toDigits 10 number = digits at hdigit hvalue hne
  unfold positional
  split
  next hle =>
    rw [ofText_zeros_append hdigit, hvalue]
    congr 1
    omega
  next hlt =>
    dsimp only
    by_cases hback : digits.length ≤ whole.toNat
    · rw [List.take_of_length_le hback, List.drop_of_length_le hback, List.isEmpty_nil, if_pos rfl,
        ofText_append_zeros hdigit hne, hvalue]
      congr 1
      omega
    · have hlength : (digits.take whole.toNat).length = whole.toNat :=
        List.length_take_of_le (by omega)
      have hsome : digits.drop whole.toNat ≠ [] := by simpa using hback
      rw [hlength, Nat.sub_self, List.replicate_zero, List.append_nil,
        if_neg (by simpa using hsome), ofText_take_drop hdigit (by omega) (by omega), hvalue]
      congr 1
      omega

/-- Digits with an exponent are read as the fraction that they write. -/
theorem ofText_scientific (width : Nat) (leading : Int) :
    ofText (scientific width (Nat.toDigits 10 number) leading) =
      .ofDecimal number (leading + 1 - (Nat.toDigits 10 number).length) := by
  have hdigit : ∀ c ∈ Nat.toDigits 10 number, c.isDigit := fun c => isDigit_toDigits
  have hvalue := digitsValue_toDigits number
  have hne : Nat.toDigits 10 number ≠ [] := Nat.toDigits_ne_nil
  generalize Nat.toDigits 10 number = digits at hdigit hvalue hne
  obtain ⟨first, rest, rfl⟩ := List.exists_cons_of_ne_nil hne
  obtain ⟨hfirst, hrest⟩ := List.forall_mem_cons.mp hdigit
  have hone : ∀ c ∈ [first], c.isDigit := List.forall_mem_singleton.mpr hfirst
  unfold scientific
  cases rest with
  | nil =>
      have hmantissa : IsMantissa [first] [first] [] := .pointless (List.cons_ne_nil _ _) hone
      exact hmantissa.ofText_append.trans (by
        rw [exponentValue_signedExponent, List.append_nil, hvalue]
        congr 1
        simp)
  | cons second rest =>
      have hmantissa : IsMantissa ([first] ++ '.' :: second :: rest) [first] (second :: rest) :=
        .point (by simp) hone hrest
      exact hmantissa.ofText_append.trans (by
        rw [exponentValue_signedExponent, List.singleton_append, hvalue]
        congr 1
        simp)

end Digits

/-- A value that rounding gives. -/
inductive IsValue : Binary64 → Prop
  | finite {significand : Nat} {exponent : Int} : IsCanonical significand exponent →
      IsValue (.finite significand exponent)
  | infinity : IsValue .infinity

theorem isValue_ofLiteral (literal : List Char) : IsValue (ofLiteral literal) := by
  cases hvalue : ofLiteral literal with
  | finite significand exponent =>
      exact .finite (canonical_of_ofQuotient (scale_pos (by decide) _) hvalue)
  | infinity => exact .infinity

/-- The text of a value is read back as the value. -/
theorem ofText_toString {value : Binary64} (hvalue : IsValue value) :
    ofText (toString value).toList = value := by
  cases hvalue with
  | infinity => rfl
  | @finite significand exponent hcanonical =>
      have hshortest := value_shortest hcanonical
      rw [Scientific.value] at hshortest
      change ofText (String.ofList _).toList = _
      rw [String.toList_ofList]
      split
      · rw [ofText_positional, ← hshortest]
        congr 1
        omega
      · rw [ofText_scientific, ← hshortest]
        congr 1
        omega

/-- Values with the same text are the same. -/
theorem eq_of_toString_eq {value value' : Binary64} (hvalue : IsValue value)
    (hvalue' : IsValue value') (htext : toString value = toString value') : value = value' := by
  rw [← ofText_toString hvalue, htext, ofText_toString hvalue']

/-! ## Characters of written values -/

/-- The text of a finite value consists of digits and a few marks. -/
def IsNumeral (c : Char) : Prop := c.isDigit ∨ c ∈ ['.', 'e', '+', '-']

theorem isNumeral_positional (hdigits : ∀ c ∈ digits, c.isDigit) (whole : Int) :
    ∀ c ∈ positional digits whole, IsNumeral c := by
  intro c hmem
  have hzero : '0'.isDigit := rfl
  unfold positional at hmem
  split at hmem
  next =>
    simp only [List.mem_cons, List.mem_append] at hmem
    rcases hmem with rfl | rfl | hzeros | hdigit
    · exact .inl hzero
    · exact .inr (by decide)
    · exact .inl (isDigit_zeros c hzeros)
    · exact .inl (hdigits c hdigit)
  next =>
    simp only [List.mem_cons, List.mem_append] at hmem
    rcases hmem with (hfront | hzeros) | rfl | hback
    · exact .inl (hdigits c (List.mem_of_mem_take hfront))
    · exact .inl (isDigit_zeros c hzeros)
    · exact .inr (by decide)
    · split at hback
      next =>
        obtain rfl := List.mem_singleton.mp hback
        exact .inl hzero
      next => exact .inl (hdigits c (List.mem_of_mem_drop hback))

theorem isNumeral_scientific (hdigits : ∀ c ∈ digits, c.isDigit) (width : Nat) (leading : Int) :
    ∀ c ∈ scientific width digits leading, IsNumeral c := by
  intro c hmem
  unfold scientific signedExponent at hmem
  simp only [List.mem_cons, List.mem_append] at hmem
  rcases hmem with (hfirst | hrest) | rfl | hsign | hzeros | hexponent
  · exact .inl (hdigits c (List.mem_of_mem_take hfirst))
  · split at hrest
    next => cases hrest
    next =>
      rcases List.mem_cons.mp hrest with rfl | hdrop
      · exact .inr (by decide)
      · exact .inl (hdigits c (List.mem_of_mem_drop hdrop))
  · exact .inr (by decide)
  · split at hsign <;> exact .inr (by simp [hsign])
  · exact .inl (isDigit_zeros c hzeros)
  · exact .inl (isDigit_toDigits hexponent)

/-- A written value stands on one line. -/
theorem newline_not_mem_toString (value : Binary64) : '\n' ∉ (toString value).toList := by
  have hnewline : ¬ IsNumeral '\n' := by
    unfold IsNumeral
    decide
  cases value with
  | infinity => decide
  | finite significand exponent =>
      intro hmem
      change '\n' ∈ (String.ofList _).toList at hmem
      rw [String.toList_ofList] at hmem
      split at hmem
      next => exact hnewline (isNumeral_positional (fun c => isDigit_toDigits) _ _ hmem)
      next => exact hnewline (isNumeral_scientific (fun c => isDigit_toDigits) _ _ _ hmem)

end Binary64

end ClassLang.Decimal
