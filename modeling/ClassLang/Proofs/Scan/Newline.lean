import ClassLang.Proofs.Scan.StringLiteral

/-! # Scanning up to a line feed

No lexeme but a string literal can hold a line feed, and one that is closed before it ends there.
So the lexeme that is found in a text is found there also when a line feed and more follow. A text
of nothing but layout is skipped together with the line feed.
-/

namespace ClassLang.Scan

variable {text skipped rest more : List Char}

/-! ## Lists -/

section Lists

variable {α : Type} {p : α → Bool} {stop : α} {front list back : List α}

theorem takeWhile_append_stop (hstop : p stop = false) :
    (list ++ stop :: back).takeWhile p = list.takeWhile p := by
  induction list with
  | nil => simp [hstop]
  | cons first list ih => simp [List.takeWhile_cons, ih]

theorem dropWhile_append_stop (hstop : p stop = false) :
    (list ++ stop :: back).dropWhile p = list.dropWhile p ++ stop :: back := by
  induction list with
  | nil => simp [hstop]
  | cons first list ih =>
      simp only [List.cons_append, List.dropWhile_cons, ih]
      split <;> rfl

theorem isPrefixOf_append_stop [BEq α] [LawfulBEq α] (hstop : stop ∉ front) :
    front.isPrefixOf (list ++ stop :: back) = front.isPrefixOf list := by
  induction front generalizing list with
  | nil => simp
  | cons first front ih =>
      have hfirst : stop ≠ first := List.ne_of_not_mem_cons hstop
      have hfront : stop ∉ front := List.not_mem_of_not_mem_cons hstop
      cases list with
      | nil =>
          have hne : (first == stop) = false := beq_false_of_ne (Ne.symm hfirst)
          simp [List.isPrefixOf, hne]
      | cons other list => simp [List.isPrefixOf, ih hfront]

end Lists

/-! ## Layout -/

theorem splitCommentEnd_append {body : List Char}
    (hsplit : splitCommentEnd text = some (body, rest)) :
    splitCommentEnd (text ++ more) = some (body, rest ++ more) := by
  fun_induction splitCommentEnd text generalizing body with
  | case1 => simp at hsplit
  | case2 after =>
      obtain ⟨rfl, rfl⟩ := Prod.mk.inj (Option.some.inj hsplit)
      rfl
  | case3 c after hends ih =>
      obtain ⟨⟨inner, tail⟩, hinner, heq⟩ := Option.map_eq_some_iff.mp hsplit
      obtain ⟨rfl, rfl⟩ := Prod.mk.inj heq
      rw [List.cons_append, splitCommentEnd, ih hinner]
      · rfl
      · rintro tail' rfl htail
        cases after with
        | nil => simp [splitCommentEnd] at hinner
        | cons d after =>
            obtain ⟨rfl, _⟩ := List.cons.inj htail
            exact hends _ rfl rfl

namespace Layout

@[simp] theorem after_after (front back : List Char) (layout : Layout) :
    (layout.after back).after front = layout.after (front ++ back) := by
  cases layout <;> simp [after]

theorem split_newline : split ('\n' :: more) = (split more).after ['\n'] := by
  rw [split]
  · rfl
  · simp
  · simp

/-- Layout before a line feed goes on behind it, unless it ended before. -/
theorem split_append_newline (hsplit : split text = .clear skipped rest) :
    split (text ++ '\n' :: more) =
      if rest = [] then (split more).after (skipped ++ ['\n'])
      else .clear skipped (rest ++ '\n' :: more) := by
  fun_induction split text generalizing skipped with
  | case1 tail comment =>
      rename_i ih
      obtain ⟨inner, hinner, rfl⟩ := after_eq_clear_iff.mp hsplit
      rw [List.cons_append, List.cons_append, split, takeWhile_append_stop (by rfl),
        dropWhile_append_stop (by rfl), ih hinner]
      split
      next => rw [after_after, List.append_assoc]
      next => rfl
  | case2 tail comment after' hclose ih =>
      obtain ⟨inner, hinner, rfl⟩ := after_eq_clear_iff.mp hsplit
      rw [List.cons_append, List.cons_append, split]
      split
      next comment' after'' hclose' =>
        rw [splitCommentEnd_append hclose] at hclose'
        obtain ⟨rfl, rfl⟩ := Prod.mk.inj (Option.some.inj hclose')
        rw [ih hinner]
        split
        next => rw [after_after, List.append_assoc]
        next => rfl
      next hopen => simp [splitCommentEnd_append hclose] at hopen
  | case3 => cases hsplit
  | case4 c tail _ _ hblank ih =>
      obtain ⟨inner, hinner, rfl⟩ := after_eq_clear_iff.mp hsplit
      have hstep : split (c :: (tail ++ '\n' :: more)) =
          (split (tail ++ '\n' :: more)).after [c] := by
        rw [split, if_pos hblank]
        · rintro _ rfl
          cases hblank
        · rintro _ rfl
          cases hblank
      rw [List.cons_append, hstep, ih hinner]
      split
      next => rw [after_after, List.append_assoc]
      next => rfl
  | case5 c tail hline hblock hblank =>
      obtain ⟨rfl, rfl⟩ := Layout.clear.inj hsplit
      -- the line feed completes no opening of a comment
      have hopens (d : Char) (hd : '\n' ≠ d) (hnot : ∀ back, c = '/' → tail = d :: back → False)
          (back : List Char) (hc : c = '/') (hback : tail ++ '\n' :: more = d :: back) : False := by
        cases tail with
        | nil => exact hd (List.cons.inj hback).1
        | cons e tail => exact hnot tail hc (by rw [(List.cons.inj hback).1])
      rw [List.cons_append, split, if_neg hblank, if_neg (List.cons_ne_nil c tail)]
      · exact hopens '/' (by decide) hline
      · exact hopens '*' (by decide) hblock
  | case6 =>
      obtain ⟨rfl, rfl⟩ := Layout.clear.inj hsplit
      exact split_newline

end Layout

/-! ## String literals -/

theorem ne_newline_of_isQuote {quote : Char} (hquote : isQuote quote) : '\n' ≠ quote := by
  rintro rfl
  cases hquote

namespace Opening

theorem delimiterAt_append_newline {quote : Char} (hquote : isQuote quote) :
    delimiterAt quote (text ++ '\n' :: more) = delimiterAt quote text := by
  have hne := ne_newline_of_isQuote hquote
  rw [delimiterAt, isPrefixOf_append_stop (by simp [hne]), delimiterAt]

theorem find?_append_newline (hne : text ≠ []) : find? (text ++ '\n' :: more) = find? text := by
  cases text with
  | nil => contradiction
  | cons c tail =>
      rw [List.cons_append]
      unfold find?
      dsimp only
      split
      next hquote => rw [← List.cons_append, delimiterAt_append_newline hquote]
      next =>
        cases tail with
        | nil => simp [isQuote]
        | cons quote tail =>
            simp only [List.cons_append]
            split
            next hraw => rw [← List.cons_append, delimiterAt_append_newline hraw.2]
            next => rfl

end Opening

/-! ## Other lexemes -/

namespace Lexeme

theorem splitPoint_append_newline :
    splitPoint (text ++ '\n' :: more) =
      ((splitPoint text).1, (splitPoint text).2 ++ '\n' :: more) := by
  cases text with
  | nil => rfl
  | cons c tail =>
      rw [List.cons_append]
      unfold splitPoint
      split <;> simp_all

theorem number?_append_newline :
    number? (text ++ '\n' :: more) =
      (number? text).map fun found => (found.1, found.2 ++ '\n' :: more) := by
  have hdigit : Char.isDigit '\n' = false := by decide
  unfold number?
  simp only [takeWhile_append_stop hdigit, dropWhile_append_stop hdigit, splitPoint_append_newline]
  split <;> rfl

theorem word?_append_newline :
    word? (text ++ '\n' :: more) =
      (word? text).map fun found => (found.1, found.2 ++ '\n' :: more) := by
  have hword : isWordChar '\n' = false := by decide
  unfold word?
  simp only [takeWhile_append_stop hword, dropWhile_append_stop hword]
  split <;> rfl

theorem symbol?_append_newline :
    symbol? (text ++ '\n' :: more) =
      (symbol? text).map fun found => (found.1, found.2 ++ '\n' :: more) := by
  have hlongest : Symbol.longest? (text ++ '\n' :: more) = Symbol.longest? text := by
    unfold Symbol.longest?
    congr 1
    funext symbol
    exact isPrefixOf_append_stop (by cases symbol <;> decide)
  unfold symbol?
  rw [hlongest]
  cases hfound : Symbol.longest? text with
  | none => rfl
  | some symbol =>
      have hprefix := List.find?_some hfound
      obtain ⟨rest, rfl⟩ := List.isPrefixOf_iff_prefix.mp hprefix
      simp

/-- The lexeme that a text begins with ends before a line feed. -/
theorem plain?_append_newline :
    plain? (text ++ '\n' :: more) =
      (plain? text).map fun found => (found.1, found.2 ++ '\n' :: more) := by
  unfold plain?
  rw [number?_append_newline, word?_append_newline, symbol?_append_newline]
  cases number? text <;> cases word? text <;> rfl

end Lexeme

/-! ## One step -/

/-- A scan of a text with more layout in front. -/
def after (front : List Char) : Scan → Scan
  | lexeme skipped found rest => lexeme (front ++ skipped) found rest
  | endOfText skipped => endOfText (front ++ skipped)
  | openComment skipped comment => openComment (front ++ skipped) comment
  | openString skipped literal => openString (front ++ skipped) literal
  | badEscape skipped literal rest => badEscape (front ++ skipped) literal rest
  | noToken skipped rest => noToken (front ++ skipped) rest

theorem clear_after (front : List Char) :
    clear (front ++ skipped) text = (clear skipped text).after front := by
  unfold clear
  split
  next => rfl
  next =>
    split
    next => split <;> rfl
    next => split <;> rfl

theorem clear_append_newline {gap : List Char} {found : Lexeme} (hne : text ≠ [])
    (hclear : clear gap text = .lexeme skipped found rest) :
    clear gap (text ++ '\n' :: more) = .lexeme skipped found (rest ++ '\n' :: more) := by
  have hopening := @Opening.find?_append_newline text more hne
  have hplain := @Lexeme.plain?_append_newline text more
  obtain ⟨c, tail, rfl⟩ := List.exists_cons_of_ne_nil hne
  rw [List.cons_append] at hopening hplain ⊢
  unfold clear at hclear ⊢
  dsimp only at hclear ⊢
  rw [hopening]
  cases hfind : Opening.find? (c :: tail) with
  | some opening =>
      have hlength := (Opening.text_prefix_of_find? hfind).2.length_le
      simp only [hfind] at hclear ⊢
      rw [← List.cons_append, List.drop_append_of_le_length hlength]
      cases hbody : Body.read opening ((c :: tail).drop opening.text.length) with
      | closed data spelling after =>
          simp only [hbody] at hclear
          obtain ⟨rfl, rfl, rfl⟩ := Scan.lexeme.inj hclear
          obtain ⟨quote, hcloses⟩ := Opening.closes_of_find? hfind
          rw [Body.read_append hcloses hbody]
      | unclosed => simp [hbody] at hclear
      | badEscape => simp [hbody] at hclear
  | none =>
      simp only [hfind, hplain] at hclear ⊢
      cases hfound : Lexeme.plain? (c :: tail) with
      | none => simp [hfound] at hclear
      | some pair =>
          simp only [hfound] at hclear
          obtain ⟨rfl, rfl, rfl⟩ := Scan.lexeme.inj hclear
          rfl

/-- The lexeme that is found in a text is found there when a line feed and more follow. -/
theorem read_newline {found : Lexeme} (hread : read text = .lexeme skipped found rest) :
    read (text ++ '\n' :: more) = .lexeme skipped found (rest ++ '\n' :: more) := by
  unfold read at hread ⊢
  cases hsplit : Layout.split text with
  | openComment => simp [hsplit] at hread
  | clear gap tail =>
      simp only [hsplit] at hread
      -- with nothing behind the layout there would be no lexeme
      have hne : tail ≠ [] := by
        rintro rfl
        cases hread
      rw [Layout.split_append_newline hsplit, if_neg hne]
      exact clear_append_newline hne hread

/-- Only layout ends where the text does. -/
theorem clear_eq_endOfText {gap : List Char} (hclear : clear gap text = .endOfText skipped) :
    text = [] ∧ gap = skipped := by
  unfold clear at hclear
  split at hclear
  next => exact ⟨rfl, Scan.endOfText.inj hclear⟩
  next =>
    split at hclear
    next => split at hclear <;> cases hclear
    next => split at hclear <;> cases hclear

/-- Where only layout is left, the scan goes on behind the line feed. -/
theorem read_newline_end (hread : read text = .endOfText skipped) :
    read (text ++ '\n' :: more) = (read more).after (skipped ++ ['\n']) := by
  unfold read at hread ⊢
  cases hsplit : Layout.split text with
  | openComment => simp [hsplit] at hread
  | clear gap tail =>
      simp only [hsplit] at hread
      obtain ⟨rfl, rfl⟩ := clear_eq_endOfText hread
      rw [Layout.split_append_newline hsplit, if_pos rfl]
      cases Layout.split more with
      | openComment => rfl
      | clear inner rest => exact clear_after _

end ClassLang.Scan
