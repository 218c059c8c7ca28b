import ClassLang.Text.Quoted
import Mathlib.Algebra.Group.Nat.Defs

/-! # Reading quoted texts

Behind a backslash, the next character says how many hexadecimal digits follow, if any. So the
characters of a quoted text can be read back one by one, and texts that are quoted in the same way
are the same. A quoted text stands on one line.
-/

namespace ClassLang.Text

variable {quote : Char}

/-! ## Code points -/

/-- The number that a hexadecimal digit stands for. -/
def hexDigitValue (digit : Char) : Nat :=
  if digit.isDigit then digit.toNat - '0'.toNat else digit.toNat - 'a'.toNat + 10

/-- The number that hexadecimal digits write. -/
def hexValue (digits : List Char) : Nat :=
  digits.foldl (fun value digit => value * 16 + hexDigitValue digit) 0

theorem hexDigitValue_digitChar {number : Nat} (hnumber : number < 16) :
    hexDigitValue (Nat.digitChar number) = number := by
  revert number
  decide

theorem length_hexDigits (width number : Nat) : (hexDigits width number).length = width := by
  induction width generalizing number with
  | zero => rfl
  | succ width ih => rw [hexDigits, List.length_append, ih, List.length_singleton]

theorem hexValue_hexDigits (width number : Nat) :
    hexValue (hexDigits width number) = number % 16 ^ width := by
  induction width generalizing number with
  | zero => simp [hexDigits, hexValue, Nat.mod_one]
  | succ width ih =>
      have hlast := hexDigitValue_digitChar (Nat.mod_lt number (by decide : 0 < 16))
      have hfront := ih (number / 16)
      unfold hexValue at hfront ⊢
      rw [hexDigits, List.foldl_append, hfront, List.foldl_cons, List.foldl_nil, hlast,
        Nat.pow_succ', Nat.mod_mul]
      omega

/-- Digits and what stands behind them, as a character and the rest. -/
def readCodePoint (width : Nat) (text : List Char) : Char × List Char :=
  (.ofNat (hexValue (text.take width)), text.drop width)

theorem readCodePoint_hexDigits {width : Nat} {c : Char} (hwidth : c.toNat < 16 ^ width)
    (rest : List Char) : readCodePoint width (hexDigits width c.toNat ++ rest) = (c, rest) := by
  rw [readCodePoint, List.take_left' (length_hexDigits _ _), List.drop_left' (length_hexDigits _ _),
    hexValue_hexDigits, Nat.mod_eq_of_lt hwidth, Char.ofNat_toNat]

/-! ## Characters -/

/-- The first character of a text that is written with backslashes, and the rest. -/
def readChar : List Char → Option (Char × List Char)
  | [] => none
  | '\\' :: [] => none
  | '\\' :: mark :: rest =>
      some <|
        if mark = 't' then ('\t', rest)
        else if mark = 'n' then ('\n', rest)
        else if mark = 'r' then ('\r', rest)
        else if mark = 'x' then readCodePoint 2 rest
        else if mark = 'u' then readCodePoint 4 rest
        else if mark = 'U' then readCodePoint 8 rest
        else (mark, rest)
  | c :: rest => some (c, rest)

/-- A quote is single or double. -/
def IsQuote (quote : Char) : Prop := quote = '\x27' ∨ quote = '\x22'

theorem isQuote_quoteFor (text : List Char) : IsQuote (quoteFor text) := by
  unfold quoteFor
  split
  · exact .inr rfl
  · exact .inl rfl

theorem readChar_codePointEscape (c : Char) (rest : List Char) :
    readChar (codePointEscape c.toNat ++ rest) = some (c, rest) := by
  have hlt : c.toNat < 16 ^ 8 := c.val.toNat_lt
  unfold codePointEscape
  split
  next hsmall => exact congrArg some (readCodePoint_hexDigits hsmall rest)
  next =>
    split
    next hmiddle => exact congrArg some (readCodePoint_hexDigits hmiddle rest)
    next => exact congrArg some (readCodePoint_hexDigits hlt rest)

theorem readChar_quoteChar (hquote : IsQuote quote) (c : Char) (rest : List Char) :
    readChar (quoteChar quote c ++ rest) = some (c, rest) := by
  unfold quoteChar
  split
  next hescaped =>
    rcases hescaped with rfl | rfl
    · rcases hquote with rfl | rfl <;> rfl
    · rfl
  next hplain =>
    split
    next heq => rw [heq]; rfl
    next =>
      split
      next heq => rw [heq]; rfl
      next =>
        split
        next heq => rw [heq]; rfl
        next =>
          split
          next =>
            have hbackslash : c ≠ '\\' := fun heq => hplain (.inr heq)
            unfold readChar
            split <;> simp_all
          next => exact readChar_codePointEscape c rest

/-! ## Texts -/

theorem flatMap_quoteChar_injective (hquote : IsQuote quote) {text text' : List Char}
    (heq : text.flatMap (quoteChar quote) = text'.flatMap (quoteChar quote)) : text = text' := by
  have hempty (c : Char) (rest : List Char) : quoteChar quote c ++ rest ≠ [] := by
    intro hnil
    have hread := readChar_quoteChar hquote c rest
    rw [hnil] at hread
    cases hread
  induction text generalizing text' with
  | nil =>
      cases text' with
      | nil => rfl
      | cons c' text' => exact absurd heq.symm (hempty c' _)
  | cons c text ih =>
      cases text' with
      | nil => exact absurd heq (hempty c _)
      | cons c' text' =>
          have hread := readChar_quoteChar hquote c (text.flatMap (quoteChar quote))
          rw [List.flatMap_cons, List.flatMap_cons] at heq
          rw [heq, readChar_quoteChar hquote] at hread
          obtain ⟨rfl, hrest⟩ := Prod.mk.inj (Option.some.inj hread)
          rw [ih hrest.symm]

/-- Texts that are quoted in the same way are the same. -/
theorem quoted_injective {text text' : List Char} (heq : quoted text = quoted text') :
    text = text' := by
  unfold quoted at heq
  obtain ⟨hquote, hbody⟩ := List.cons.inj heq
  rw [← hquote] at hbody
  exact flatMap_quoteChar_injective (isQuote_quoteFor text) (List.append_cancel_right hbody)

theorem newline_not_mem_hexDigits (width number : Nat) : '\n' ∉ hexDigits width number := by
  have hdigit : ∀ digit < 16, '\n' ≠ Nat.digitChar digit := by decide
  induction width generalizing number with
  | zero => exact List.not_mem_nil
  | succ width ih =>
      intro hmem
      rcases List.mem_append.mp hmem with hfront | hlast
      · exact ih _ hfront
      · exact hdigit _ (Nat.mod_lt _ (by decide)) (List.mem_singleton.mp hlast)

theorem newline_not_mem_quoteChar (hquote : IsQuote quote) (c : Char) :
    '\n' ∉ quoteChar quote c := by
  have hmarks : '\n' ∉ ['\\', 't'] ∧ '\n' ∉ ['\\', 'n'] ∧ '\n' ∉ ['\\', 'r'] := by decide
  unfold quoteChar
  split
  next hescaped =>
    rcases hescaped with rfl | rfl
    · rcases hquote with rfl | rfl <;> decide
    · decide
  next =>
    split
    next => exact hmarks.1
    next =>
      split
      next => exact hmarks.2.1
      next hnewline =>
        split
        next => exact hmarks.2.2
        next =>
          split
          next => exact fun hmem => hnewline (List.mem_singleton.mp hmem).symm
          next =>
            unfold codePointEscape
            split
            next => simp [newline_not_mem_hexDigits]
            next => split <;> simp [newline_not_mem_hexDigits]

/-- A quoted text stands on one line. -/
theorem newline_not_mem_quoted (text : List Char) : '\n' ∉ quoted text := by
  have hquote := isQuote_quoteFor text
  have hne : '\n' ≠ quoteFor text := by
    rcases hquote with hquote | hquote <;> rw [hquote] <;> decide
  unfold quoted
  dsimp only
  rw [List.mem_cons, List.mem_append, List.mem_singleton, List.mem_flatMap]
  rintro (hfirst | ⟨c, -, hmem⟩ | hlast)
  · exact hne hfirst
  · exact newline_not_mem_quoteChar hquote c hmem
  · exact hne hlast

end ClassLang.Text
