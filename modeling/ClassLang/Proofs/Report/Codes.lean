import ClassLang.Report.Style

/-! # Texts without their codes

A scan drops the codes from a text one after the other. In a styled text none of whose pieces brings
escapes it finds the codes of the styles and nothing else, and what is left is the text without
colors.
-/

namespace ClassLang

/-! ## Dropping codes -/

/-- What follows the code that a text begins with: escape, bracket, digits, `m`. -/
def dropCode? : List Char → Option (List Char)
  | '\x1b' :: '[' :: rest =>
      match rest.takeWhile Char.isDigit, rest.dropWhile Char.isDigit with
      | _ :: _, 'm' :: behind => some behind
      | _, _ => none
  | _ => none

theorem length_lt_of_dropCode? {text behind : List Char} (hdrop : dropCode? text = some behind) :
    behind.length < text.length := by
  unfold dropCode? at hdrop
  split at hdrop
  case h_1 rest =>
    split at hdrop
    case h_1 hbehind =>
      obtain rfl := Option.some.inj hdrop
      have hle := (List.dropWhile_sublist Char.isDigit (l := rest)).length_le
      rw [hbehind] at hle
      simp only [List.length_cons] at hle ⊢
      omega
    case h_2 => cases hdrop
  case h_2 => cases hdrop

/-- The text without its codes. -/
def eraseCodes : List Char → List Char
  | [] => []
  | c :: rest =>
      match _hdrop : dropCode? (c :: rest) with
      | some behind => eraseCodes behind
      | none => c :: eraseCodes rest
termination_by text => text.length
decreasing_by
  · exact length_lt_of_dropCode? _hdrop
  · exact Nat.lt_succ_self _

/-- The text without its codes. -/
def withoutCodes (text : String) : String := String.ofList (eraseCodes text.toList)

/-- A text that brings no escapes. -/
def Text.Bare (text : List Char) : Prop := '\x1b' ∉ text

instance (text : List Char) : Decidable (Text.Bare text) :=
  inferInstanceAs (Decidable ('\x1b' ∉ text))

theorem eraseCodes_of_dropCode? {text behind : List Char} (hdrop : dropCode? text = some behind) :
    eraseCodes text = eraseCodes behind := by
  cases text with
  | nil => cases hdrop
  | cons c rest =>
      rw [eraseCodes]
      split
      case h_1 hsome => rw [Option.some.inj (hsome.symm.trans hdrop)]
      case h_2 hnone => rw [hdrop] at hnone; cases hnone

theorem eraseCodes_cons_of_ne {c : Char} (hc : c ≠ '\x1b') (rest : List Char) :
    eraseCodes (c :: rest) = c :: eraseCodes rest := by
  have hnone : dropCode? (c :: rest) = none := by
    unfold dropCode?
    split
    case h_1 heq => exact absurd (List.cons.inj heq).1 hc
    case h_2 => rfl
  rw [eraseCodes]
  split
  case h_1 hsome => rw [hnone] at hsome; cases hsome
  case h_2 => rfl

theorem eraseCodes_append_of_bare {text : List Char} (hbare : Text.Bare text)
    (rest : List Char) : eraseCodes (text ++ rest) = text ++ eraseCodes rest := by
  induction text with
  | nil => rfl
  | cons c text ih =>
      obtain ⟨hne, htext⟩ := not_or.mp (mt List.mem_cons.mpr hbare)
      rw [List.cons_append, eraseCodes_cons_of_ne (Ne.symm hne), ih htext, List.cons_append]

theorem Style.code_toList (style : Style) :
    style.code.toList = '\x1b' :: '[' :: (Nat.toDigits 10 style.number ++ ['m']) := by
  rw [code]
  simp [toString]

/-- The code of a style is found and dropped. -/
theorem eraseCodes_code_append (style : Style) (rest : List Char) :
    eraseCodes (style.code.toList ++ rest) = eraseCodes rest := by
  have hdigits : ∀ c ∈ Nat.toDigits 10 style.number, c.isDigit :=
    fun c hc => Nat.isDigit_of_mem_toDigits (by decide) (by decide) hc
  obtain ⟨digit, digits, hcons⟩ := List.exists_cons_of_ne_nil
    (Nat.toDigits_ne_nil (n := style.number) (b := 10))
  have hletter : ¬ 'm'.isDigit := by decide
  apply eraseCodes_of_dropCode?
  rw [Style.code_toList, List.cons_append, List.cons_append, List.append_assoc,
    List.singleton_append, dropCode?, List.takeWhile_append_of_pos hdigits,
    List.dropWhile_append_of_pos hdigits, List.takeWhile_cons_of_neg hletter,
    List.dropWhile_cons_of_neg hletter, hcons]
  rfl

/-! ## Styled texts without escapes -/

namespace Text

variable {front back text whole : List Char}

theorem bare_append : Bare (front ++ back) ↔ Bare front ∧ Bare back := by
  rw [Bare, List.mem_append, not_or]
  rfl

theorem Bare.of_subset (hwhole : Bare whole) (hsubset : text ⊆ whole) : Bare text :=
  fun hmem => hwhole (hsubset hmem)

theorem bare_number (number : Nat) : Bare (toString number).toList := by
  intro hmem
  rw [Nat.toString_eq_ofList_toDigits, String.toList_ofList] at hmem
  exact absurd (Nat.isDigit_of_mem_toDigits (by decide) (by decide) hmem) (by decide)

end Text

/-- The text of a piece, whatever its style. -/
def Piece.text : Piece → String
  | .plain text => text
  | .painted _ text => text

namespace Styled

/-- No piece brings escapes. -/
def Bare (styled : Styled) : Prop := ∀ piece ∈ styled, Text.Bare piece.text.toList

instance (styled : Styled) : Decidable styled.Bare :=
  inferInstanceAs (Decidable (∀ piece ∈ styled, Text.Bare piece.text.toList))

variable {front back styled : Styled} {lines : List Styled}

theorem bare_nil : Bare [] := fun _ hmem => absurd hmem List.not_mem_nil

theorem bare_cons {piece : Piece} :
    Bare (piece :: styled) ↔ Text.Bare piece.text.toList ∧ Bare styled :=
  List.forall_mem_cons

theorem bare_append : Bare (front ++ back) ↔ Bare front ∧ Bare back :=
  List.forall_mem_append

theorem bare_intercalate {separator : Styled} (hseparator : Bare separator)
    (hlines : ∀ line ∈ lines, Bare line) : Bare (separator.intercalate lines) := by
  induction lines with
  | nil => exact bare_nil
  | cons line lines ih =>
      obtain ⟨hline, hrest⟩ := List.forall_mem_cons.mp hlines
      cases lines with
      | nil => rwa [List.intercalate_singleton]
      | cons next more =>
          rw [List.intercalate_cons_cons, bare_append, bare_append]
          exact ⟨⟨hline, hseparator⟩, ih hrest⟩

end Styled

theorem Piece.eraseCodes_render {piece : Piece} (hbare : Text.Bare piece.text.toList)
    (rest : List Char) :
    eraseCodes ((piece.render true).toList ++ rest) =
      (piece.render false).toList ++ eraseCodes rest := by
  cases piece with
  | plain text => exact eraseCodes_append_of_bare hbare rest
  | painted style text =>
      have htext : Text.Bare text.toList := hbare
      have hend : eraseCodes (text.toList ++ (Style.reset.code.toList ++ rest)) =
          text.toList ++ eraseCodes rest := by
        rw [eraseCodes_append_of_bare htext, eraseCodes_code_append]
      simp only [render, if_true, String.toList_append, List.append_assoc, Bool.false_eq_true,
        if_false]
      cases style with
      | none => exact hend
      | some style => exact (eraseCodes_code_append style _).trans hend

/-- **Without its codes a colored text is the text without colors.** -/
theorem Styled.withoutCodes_render {styled : Styled} (hbare : styled.Bare) :
    withoutCodes (styled.render true) = styled.render false := by
  have herase : eraseCodes (styled.render true).toList = (styled.render false).toList := by
    induction styled with
    | nil => rw [eraseCodes.eq_def]; rfl
    | cons piece styled ih =>
        obtain ⟨hpiece, hrest⟩ := bare_cons.mp hbare
        simp only [render, List.map_cons, String.join_cons, String.toList_append]
        rw [piece.eraseCodes_render hpiece]
        exact congrArg _ (ih hrest)
  rw [withoutCodes, herase, String.ofList_toList]

end ClassLang
