import ClassLang.Proofs.Scan.Spelling
import Mathlib.Data.List.Forall2

/-! # Writing string literals

A string can be written as a literal with escapes or, if it lets the quotes be told, as a raw one,
and is read back from it. A literal that is never closed is known, too, by what is written in it,
and by whether the text ends behind a backslash.
-/

namespace ClassLang.Scan

/-- How a character may be written between quotes of a sort. A backslash stands before a backslash
and before such a quote; some characters that are not printed have letters of their own. -/
inductive WritesChar (quote : Char) : Char → List Char → Prop
  | plain {c} : c ≠ '\\' → c ≠ quote → WritesChar quote c [c]
  | escaped {c} : c = '\\' ∨ c = quote → WritesChar quote c ['\\', c]
  | tab : WritesChar quote '\t' ['\\', 't']
  | lineFeed : WritesChar quote '\n' ['\\', 'n']
  | formFeed : WritesChar quote '\x0c' ['\\', 'f']
  | carriageReturn : WritesChar quote '\r' ['\\', 'r']

/-- The text ends in the middle of the literal. It is cut off if its last character is a backslash
that begins an escape. -/
inductive Unclosed (opening : Opening) : (body : List Char) → (cut : Bool) → Prop
  | nil : Unclosed opening [] false
  | cut : opening.raw = false → Unclosed opening ['\\'] true
  | plain {c body cut} : ¬ opening.delimiter <+: c :: body → (c = '\\' → opening.raw = true) →
      Unclosed opening body cut → Unclosed opening (c :: body) cut
  | escape {escaped c body cut} : opening.raw = false → unescape? escaped = some c →
      Unclosed opening body cut → Unclosed opening ('\\' :: escaped :: body) cut

variable {quote c : Char} {opening : Opening} {body data rest : List Char}
  {pieces : List (List Char)}

theorem isQuote_iff : isQuote c ↔ c = '\x27' ∨ c = '\x22' := by simp [isQuote]

/-! ## One character after the other -/

namespace Body

theorem read_delimiter (hne : opening.delimiter ≠ []) :
    read opening (opening.delimiter ++ rest) = .closed [] opening.delimiter rest := by
  obtain ⟨c, more, htext⟩ : ∃ c more, opening.delimiter ++ rest = c :: more :=
    List.exists_cons_of_ne_nil (by simp [hne])
  have hcloses : opening.delimiter.isPrefixOf (opening.delimiter ++ rest) := by simp
  rw [read.eq_def, htext]
  simp only [← htext, if_pos hcloses, List.drop_left]

theorem read_plain (hopen : ¬ opening.delimiter <+: c :: rest)
    (hraw : c = '\\' → opening.raw = true) :
    read opening (c :: rest) = (read opening rest).cons c [c] := by
  rw [← List.isPrefixOf_iff_prefix] at hopen
  have hplain : ¬ (c = '\\' ∧ opening.raw = false) := by
    rintro ⟨hbackslash, hescapes⟩
    simp [hraw hbackslash] at hescapes
  rw [read.eq_def]
  simp only [if_neg hopen, if_neg hplain]

theorem read_escaped {escaped : Char} (hopen : ¬ opening.delimiter <+: '\\' :: escaped :: rest)
    (hraw : opening.raw = false) (hescaped : unescape? escaped = some c) :
    read opening ('\\' :: escaped :: rest) = (read opening rest).cons c ['\\', escaped] := by
  rw [← List.isPrefixOf_iff_prefix] at hopen
  rw [read.eq_def]
  simp [hopen, hraw, hescaped]

/-- Nothing can stand behind the backslash. -/
theorem read_cut (hopen : ¬ opening.delimiter <+: ['\\']) (hraw : opening.raw = false) :
    read opening ['\\'] = .badEscape ['\\'] [] := by
  rw [← List.isPrefixOf_iff_prefix] at hopen
  rw [read.eq_def]
  simp [hopen, hraw]

end Body

namespace Opening.Closes

variable (hcloses : opening.Closes quote)

include hcloses

theorem ne_nil : opening.delimiter ≠ [] := by
  rcases hcloses.delimiter with heq | heq <;> simp [heq]

/-- Only the quote begins the delimiter. -/
theorem not_prefix (hne : c ≠ quote) : ¬ opening.delimiter <+: c :: rest := by
  rcases hcloses.delimiter with heq | heq <;> simp [heq, hne.symm]

theorem not_prefix_backslash : ¬ opening.delimiter <+: '\\' :: rest := by
  refine hcloses.not_prefix ?_
  rintro rfl
  exact absurd hcloses.isQuote (by decide)

end Opening.Closes

/-! ## Literals that are closed -/

/-- What decodes to the data is read as the data, up to the delimiter. -/
theorem Body.read_of_decodes (hcloses : opening.Closes quote)
    (hdecodes : Decodes opening body data) :
    Body.read opening (body ++ opening.delimiter ++ rest) =
      .closed data (body ++ opening.delimiter) rest := by
  induction hdecodes with
  | nil => exact read_delimiter hcloses.ne_nil
  | @plain c body data hopen hraw _ ih =>
      have hopen' : ¬ opening.delimiter <+: c :: (body ++ opening.delimiter ++ rest) := by
        intro hprefix
        refine hopen (List.prefix_of_prefix_length_le hprefix ⟨rest, by simp⟩ ?_)
        simp only [List.length_append, List.length_cons]
        omega
      rw [List.cons_append, List.cons_append, read_plain hopen' hraw, ih]
      rfl
  | escape hraw hescaped _ ih =>
      simp only [List.cons_append]
      rw [read_escaped hcloses.not_prefix_backslash hraw hescaped, ih]
      rfl

/-- A literal that is closed does not depend on what follows it. -/
theorem Body.read_append {text spelling more : List Char} (hcloses : opening.Closes quote)
    (hread : Body.read opening text = .closed data spelling rest) :
    Body.read opening (text ++ more) = .closed data spelling (rest ++ more) := by
  obtain ⟨body, rfl, hdecodes⟩ := decodes_of_read hread
  have hcovers := covers_read opening text
  rw [hread] at hcovers
  have htext : text = body ++ opening.delimiter ++ rest := hcovers.symm
  rw [htext, List.append_assoc, read_of_decodes hcloses hdecodes]

/-- What is written character by character decodes to the characters. -/
theorem decodes_of_writes (hcloses : opening.Closes quote) (hraw : opening.raw = false)
    (hwrites : List.Forall₂ (WritesChar quote) data pieces) :
    Decodes opening pieces.flatten data := by
  induction hwrites with
  | nil => exact .nil
  | @cons c _ _ _ hchar _ ih =>
      rw [List.flatten_cons]
      cases hchar with
      | plain hbackslash hne => exact .plain (hcloses.not_prefix hne) (absurd · hbackslash) ih
      | escaped hspecial =>
          have hescaped : unescape? c = some c := by
            rcases hspecial with rfl | rfl
            · rfl
            · rcases isQuote_iff.mp hcloses.isQuote with rfl | rfl <;> rfl
          exact .escape hraw hescaped ih
      | tab => exact .escape hraw rfl ih
      | lineFeed => exact .escape hraw rfl ih
      | formFeed => exact .escape hraw rfl ih
      | carriageReturn => exact .escape hraw rfl ih

/-- Raw characters decode to themselves, if no delimiter stands among them and none can begin with
the last of them. -/
theorem decodes_raw (hcloses : opening.Closes quote) (hraw : opening.raw = true)
    (hapart : ¬ opening.delimiter <:+: data)
    (hlast : opening.delimiter ≠ [quote] → data.getLast? ≠ some quote) :
    Decodes opening data data := by
  induction data with
  | nil => exact .nil
  | cons c data ih =>
      refine .plain ?_ (fun _ => hraw) (ih ?_ ?_)
      · intro hprefix
        rcases List.prefix_or_prefix_of_prefix hprefix (List.prefix_append _ _) with hshort | hlong
        · exact hapart hshort.isInfix
        · -- All that is left of the data is quotes, too few to close.
          have hquotes : ∀ d ∈ c :: data, d = quote := by
            intro d hd
            have hmem := hlong.subset hd
            rcases hcloses.delimiter with heq | heq <;> simpa [heq] using hmem
          by_cases hsingle : opening.delimiter = [quote]
          · refine hapart (List.IsPrefix.isInfix ⟨data, ?_⟩)
            rw [hsingle, hquotes c List.mem_cons_self]
            rfl
          · refine hlast hsingle ?_
            rw [List.getLast?_eq_some_getLast (List.cons_ne_nil c data)]
            exact congrArg some (hquotes _ (List.getLast_mem _))
      · exact fun hdata => hapart (hdata.trans (List.suffix_cons c data).isInfix)
      · intro hthree hquote
        refine hlast hthree ?_
        cases data with
        | nil => simp at hquote
        | cons => rwa [List.getLast?_cons_cons]

/-- What stands between single quotes does not begin with a quote. -/
theorem Decodes.head?_ne (hdecodes : Decodes opening body data) (hcloses : opening.Closes quote)
    (hsingle : opening.delimiter = [quote]) : body.head? ≠ some quote := by
  intro hhead
  cases hdecodes with
  | nil => simp at hhead
  | plain hopen =>
      obtain rfl := Option.some.inj hhead
      exact hopen (hsingle ▸ ⟨_, rfl⟩)
  | escape =>
      obtain rfl := Option.some.inj hhead
      have hopen : ¬ opening.delimiter <+: ['\\'] := hcloses.not_prefix_backslash
      exact hopen (hsingle ▸ List.prefix_refl _)

/-- An opening is found where its quotes are. -/
theorem Opening.find?_of_delimiterAt (hquote : isQuote quote)
    (hdelimiter : delimiterAt quote (quote :: rest) = opening.delimiter) :
    Opening.find? ((if opening.raw then ['r'] else []) ++ quote :: rest) = some opening := by
  obtain ⟨raw, delimiter⟩ := opening
  obtain rfl : delimiterAt quote (quote :: rest) = delimiter := hdelimiter
  cases raw with
  | false => simp [find?, hquote]
  | true =>
      have hletter : isQuote 'r' = false := by decide
      simp [find?, hquote, hletter]

/-- The opening of a literal is found, unless it is empty and what follows it makes three quotes of
the two. -/
theorem Opening.find?_literal (hcloses : opening.Closes quote)
    (hdecodes : Decodes opening body data)
    (hrest : opening.delimiter = [quote] → body = [] → rest.head? ≠ some quote) :
    Opening.find? (opening.text ++ (body ++ opening.delimiter ++ rest)) = some opening := by
  rw [text, List.append_assoc]
  rcases hcloses.delimiter with hsingle | hthree
  · have hhead := hdecodes.head?_ne hcloses hsingle
    have hopen : ¬ [quote, quote, quote] <+: quote :: (body ++ [quote] ++ rest) := by
      cases body with
      | nil =>
          have hfirst := hrest hsingle rfl
          cases rest <;> simp_all [eq_comm]
      | cons next more => simp_all [eq_comm]
    have hdelimiter :
        delimiterAt quote (quote :: (body ++ [quote] ++ rest)) = opening.delimiter := by
      rw [delimiterAt, if_neg (mt List.isPrefixOf_iff_prefix.mp hopen), hsingle]
    rw [hsingle]
    exact find?_of_delimiterAt hcloses.isQuote hdelimiter
  · rw [hthree]
    exact find?_of_delimiterAt hcloses.isQuote (by simp [delimiterAt, hthree])

/-- A text that begins with an opening begins with no layout. -/
theorem Opening.split_of_find? {text : List Char} (hfind : Opening.find? text = some opening) :
    Layout.split text = .clear [] text := by
  cases text with
  | nil => simp [find?] at hfind
  | cons c rest =>
      have hc : isQuote c ∨ c = 'r' := by
        unfold find? at hfind
        grind
      refine Layout.split_clear ?_ ?_
      · rcases hc with hquote | rfl
        · rcases isQuote_iff.mp hquote with rfl | rfl <;> decide
        · decide
      · rintro rfl
        exact absurd hc (by decide)

theorem Opening.exists_cons_of_find? {text : List Char}
    (hfind : Opening.find? text = some opening) : ∃ c more, text = c :: more := by
  refine List.exists_cons_of_ne_nil ?_
  rintro rfl
  cases hfind

/-- A literal is found in front of whatever does not make three quotes of an empty one. -/
theorem clear_literal (skipped : List Char) (hcloses : opening.Closes quote)
    (hdecodes : Decodes opening body data)
    (hrest : opening.delimiter = [quote] → body = [] → rest.head? ≠ some quote) :
    clear skipped (opening.text ++ (body ++ opening.delimiter ++ rest)) =
      .lexeme skipped ⟨.string, some (String.ofList data),
        opening.text ++ (body ++ opening.delimiter)⟩ rest := by
  have hfind := Opening.find?_literal hcloses hdecodes hrest
  obtain ⟨c, more, htext⟩ := Opening.exists_cons_of_find? hfind
  rw [htext, clear]
  simp only [← htext, hfind, List.drop_left, Body.read_of_decodes hcloses hdecodes]

/-! ## Literals that are not closed -/

/-- The end of the text is what is wrong with it, or the escape that the end cuts off. -/
theorem Body.read_of_unclosed {cut : Bool} (hcloses : opening.Closes quote)
    (hunclosed : Unclosed opening body cut) :
    Body.read opening body = if cut then .badEscape body [] else .unclosed := by
  induction hunclosed with
  | nil => rfl
  | cut hraw => exact read_cut hcloses.not_prefix_backslash hraw
  | plain hopen hraw _ ih =>
      rw [read_plain hopen hraw, ih]
      split <;> rfl
  | escape hraw hescaped _ ih =>
      rw [read_escaped hcloses.not_prefix_backslash hraw hescaped, ih]
      split <;> rfl

theorem clear_unclosed (skipped : List Char) {cut : Bool}
    (hfind : Opening.find? (opening.text ++ body) = some opening)
    (hunclosed : Unclosed opening body cut) :
    clear skipped (opening.text ++ body) =
      if cut then .badEscape skipped (opening.text ++ body) []
      else .openString skipped (opening.text ++ body) := by
  obtain ⟨quote, hcloses⟩ := Opening.closes_of_find? hfind
  have hread := Body.read_of_unclosed hcloses hunclosed
  obtain ⟨c, more, htext⟩ := Opening.exists_cons_of_find? hfind
  rw [htext, clear]
  cases cut <;> simp only [← htext, hfind, List.drop_left, hread] <;> rfl

end ClassLang.Scan
