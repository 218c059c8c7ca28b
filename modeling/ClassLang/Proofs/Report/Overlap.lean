import ClassLang.Proofs.Report.Primary

/-! # Overlapping labels

Where labels overlap, the marks of a later one are painted over those of the labels before it. So
the characters of the primary label's span have carets under them but where a label that comes later
in the list covers them too: there they have dashes.
-/

namespace ClassLang

/-- A character that is no line feed is one of those of its line. -/
theorem Source.exists_index_of_ne_newline {source : Source} {offset : Nat}
    (hoffset : offset < source.length) (hc : source.text[offset]? ≠ some '\n') :
    ∃ start ≤ source.length, source.position start = ⟨(source.position offset).line, 1⟩ ∧
      ∃ index < (source.lineText start).length, start + index = offset ∧
        (source.position offset).column = index + 1 := by
  have hbehind : 0 < (beforeNewline (source.text.drop offset)).length := by
    have hlt : offset < source.text.length := hoffset
    rw [List.getElem?_eq_getElem hlt, Ne, Option.some.injEq] at hc
    rw [List.drop_eq_getElem_cons hlt, beforeNewline,
      List.takeWhile_cons_of_pos (by exact bne_iff_ne.mpr hc), List.length_cons]
    exact Nat.succ_pos _
  have hcolumn : (source.position offset).column ≤ (source.lineText offset).length := by
    rw [lineText, List.length_append, position]
    dsimp only
    omega
  obtain ⟨start, hstart, hposition⟩ := exists_position_eq
    (source.one_le_position_line offset) (source.position_line_le offset)
  have hseen := position_cases hstart hposition (Nat.le_of_lt hoffset)
  unfold Position.SeenFrom at hseen
  rw [lineText_eq hposition rfl] at hcolumn
  exact ⟨start, hstart, hposition, offset - start, by omega, by omega, by omega⟩

namespace Frame

/-! ## Cells that several labels mark -/

section Cell

variable {front back : List LabelPlace} {place : LabelPlace} {line width index : Nat}

/-- Labels that leave a cell alone may come later. -/
theorem cell_append_of_unmarked
    (hback : ∀ other ∈ back, other.marks line width index = false) :
    cell (front ++ back) line width index = cell front line width index := by
  have hnone : back.filter (·.marks line width index) = [] :=
    List.filter_eq_nil_iff.mpr fun other hmem => Bool.eq_false_iff.mp (hback other hmem)
  rw [cell, cell, List.filter_append, hnone, List.append_nil]

/-- Where a later label marks a cell, the labels before do not matter. -/
theorem cell_append_of_marked (hback : ∃ other ∈ back, other.marks line width index = true) :
    cell (front ++ back) line width index = cell back line width index := by
  obtain ⟨other, hmem, hmarks⟩ := hback
  have hsome : back.filter (·.marks line width index) ≠ [] :=
    List.ne_nil_of_mem (List.mem_filter.mpr ⟨hmem, hmarks⟩)
  rw [cell, cell, List.filter_append, List.getLast?_append_of_ne_nil _ hsome]

/-- A cell that a label marks shows its mark or that of a label behind it. -/
theorem cell_append_cons (front : List LabelPlace)
    (hmarks : place.marks line width index = true)
    (hback : ∀ other ∈ back, other.mark = '-') :
    cell (front ++ place :: back) line width index = place.mark ∧
        (∀ other ∈ back, other.marks line width index = false) ∨
      cell (front ++ place :: back) line width index = '-' ∧
        ∃ other ∈ back, other.marks line width index = true := by
  rw [List.append_cons]
  by_cases hlater : ∃ other ∈ back, other.marks line width index = true
  · rw [cell_append_of_marked hlater]
    exact .inr ⟨cell_eq_mark hlater fun other hmem _ => hback other hmem, hlater⟩
  · have hnone : ∀ other ∈ back, other.marks line width index = false := fun other hmem =>
      Bool.eq_false_iff.mpr fun hother => hlater ⟨other, hmem, hother⟩
    have hplace : ∃ other ∈ [place], other.marks line width index = true :=
      ⟨place, List.mem_singleton_self place, hmarks⟩
    rw [cell_append_of_unmarked hnone, cell_append_of_marked hplace]
    refine .inl ⟨cell_eq_mark hplace fun other hmem _ => ?_, hnone⟩
    rw [List.mem_singleton.mp hmem]

end Cell

/-! ## The marks under the primary label -/

/-- The mark that a frame shows under the character at an offset, in the column of the character. -/
def markUnder (frame : List FrameLine) (source : Source) (gutter offset : Nat) : Option Char := do
  let position := source.position offset
  let line ← frame.find? (·.number = position.line)
  let row ← line.underline
  row.toList[gutter + 2 + position.column]?

/-- It is found in the row of the line that the character is on. -/
theorem markUnder_eq {source : Source} {places : List LabelPlace} {frame : List FrameLine}
    {gutter offset : Nat} {row : String}
    (hlines : ∀ line ∈ frame, line = frameLine source places gutter line.number)
    (hline : ∃ line ∈ frame, line.number = (source.position offset).line)
    (hrow : row ∈ (frameLine source places gutter (source.position offset).line).underline) :
    markUnder frame source gutter offset =
      row.toList[gutter + 2 + (source.position offset).column]? := by
  obtain ⟨line, hfind⟩ : ∃ line,
      frame.find? (·.number = (source.position offset).line) = some line := by
    obtain ⟨line, hmem, hnumber⟩ := hline
    exact Option.isSome_iff_exists.mp
      (List.find?_isSome.mpr ⟨line, hmem, decide_eq_true hnumber⟩)
  have hnumber : line.number = (source.position offset).line := by
    simpa using List.find?_some hfind
  have hunderline : line.underline = some row := by
    rw [hlines line (List.mem_of_find?_eq_some hfind), hnumber]
    exact hrow
  simp only [markUnder, hfind, hunderline, Option.bind_eq_bind, Option.bind_some]

/-- A row has its marks behind the gutter and the bar. -/
theorem getElem?_row {marks : List Char} {mark : Char} {index : Nat} (gutter : Nat)
    (hmark : marks[index]? = some mark) (remark : String) :
    (padLeft gutter "" ++ " | " ++ String.ofList marks ++ remark).toList[gutter + 3 + index]? =
      some mark := by
  have hgutter : (padLeft gutter "").toList.length = gutter := length_padLeft (Nat.zero_le gutter)
  have hlt := (List.getElem?_eq_some_iff.mp hmark).1
  have hlength : (padLeft gutter "" ++ " | ").toList.length = gutter + 3 := by
    rw [String.toList_append, List.length_append, hgutter]
    rfl
  rw [String.toList_append, String.toList_append, String.toList_ofList, List.append_assoc,
    List.getElem?_append_right (by omega), hlength, Nat.add_sub_cancel_left,
    List.getElem?_append_left hlt, hmark]

section Labels

variable {source : Source} {front back : List Label} {label : Label}
  (hlabels : ∀ other ∈ front ++ label :: back, other.span.source = source ∧ other.span.InBounds)
  (hprimary : label.primary = true) (hback : ∀ other ∈ back, other.primary = false)

include hlabels hprimary hback

/-- Under a character that the primary label covers, the cell shows its caret, or a dash if a label
behind it covers the character too. -/
theorem cell_of_covers {line start index : Nat} (hstart : start ≤ source.length)
    (hposition : source.position start = ⟨line, 1⟩)
    (hindex : index < (source.lineText start).length) (hcovers : label.Covers (start + index)) :
    let places := ((front ++ label :: back).map Label.located).filter (·.onLine line)
    cell places line (source.lineText start).length index = '^' ∧
        (∀ later ∈ back, ¬ later.Covers (start + index)) ∨
      cell places line (source.lineText start).length index = '-' ∧
        ∃ later ∈ back, later.Covers (start + index) := by
  obtain ⟨hsource, hbounds⟩ := hlabels label (by simp)
  have honLine := hcovers.onLine hbounds hsource hstart hposition hindex
  have hmarks := (Label.marks_located_iff hbounds hsource hstart hposition honLine hindex).mpr
    hcovers
  have hcaret : label.located.mark = '^' := by
    rw [LabelPlace.mark, Label.located, hprimary]
    rfl
  have hdash : ∀ other ∈ (back.map Label.located).filter (·.onLine line), other.mark = '-' := by
    intro other hother
    obtain ⟨later, hlater, rfl⟩ := List.mem_map.mp (List.mem_of_mem_filter hother)
    rw [LabelPlace.mark, Label.located, hback later hlater]
    rfl
  have hbehind : ∀ other ∈ back, other.span.source = source ∧ other.span.InBounds :=
    fun other hother => hlabels other (by simp [hother])
  have hlater := exists_marks_iff hbehind hstart hposition hindex
  rw [filter_onLine_located honLine]
  obtain ⟨hcell, hnone⟩ | ⟨hcell, hsome⟩ :=
    cell_append_cons ((front.map Label.located).filter (·.onLine line)) hmarks hdash
  · refine .inl ⟨hcell.trans hcaret, fun later hmem hcovered => ?_⟩
    obtain ⟨place, hplace, hmarked⟩ := hlater.mpr ⟨later, hmem, hcovered⟩
    rw [hnone place hplace] at hmarked
    exact Bool.false_ne_true hmarked
  · exact .inr ⟨hcell, hlater.mp hsome⟩

/-- The row of marks shows this cell in the column of the character. -/
theorem exists_row_of_covers {offset : Nat} (hoffset : offset < source.length)
    (hc : source.text[offset]? ≠ some '\n') (hcovers : label.Covers offset) (gutter : Nat) :
    ∃ row ∈ (frameLine source ((front ++ label :: back).map Label.located) gutter
        (source.position offset).line).underline, ∃ mark,
      row.toList[gutter + 2 + (source.position offset).column]? = some mark ∧
        (mark = '^' ∧ (∀ later ∈ back, ¬ later.Covers offset) ∨
          mark = '-' ∧ ∃ later ∈ back, later.Covers offset) := by
  obtain ⟨start, hstart, hposition, index, hindex, rfl, hcolumn⟩ :=
    Source.exists_index_of_ne_newline hoffset hc
  generalize (source.position (start + index)).line = line at hposition ⊢
  have hcell := cell_of_covers hlabels hprimary hback hstart hposition hindex hcovers
  have hmark : cell (((front ++ label :: back).map Label.located).filter (·.onLine line)) line
      (source.lineText start).length index ≠ ' ' := by
    rcases hcell with ⟨hcaret, -⟩ | ⟨hdash, -⟩
    · rw [hcaret]
      decide
    · rw [hdash]
      decide
  have hshown := getElem?_markRow_of_cell hmark (Nat.le_of_lt hindex) rfl
  have hmarks : markRow (((front ++ label :: back).map Label.located).filter (·.onLine line)) line
      (source.lineText start).length ≠ [] := by
    intro hnil
    rw [hnil] at hshown
    cases hshown
  rw [underline_frameLine hposition, underline?, if_neg (mt List.isEmpty_iff.mp hmarks), hcolumn,
    ← Nat.add_assoc, Nat.add_right_comm]
  exact ⟨_, rfl, _, getElem?_row gutter hshown _, hcell⟩

end Labels

end Frame

namespace Formatter

variable {formatter : Formatter} {terminal : Terminal} {severity : Severity} {labels : List Label}

/-- **The primary label's span is underlined with carets but where a later label covers it.** Under
every character of the span stands a caret if no label that comes later in the list covers the
character as well, and otherwise a dash. -/
theorem format_marks_primary (hne : labels ≠ [])
    (hbounds : ∀ label ∈ labels, label.span.InBounds)
    (hcolors : formatter.mode.usesColors terminal = false)
    (hcap : (count severity formatter).errors ≤ formatter.maxErrors) (code message : String)
    (notes : List String) (help : Option String) :
    let diagnostic := Diagnostic.make code severity message labels notes help
    ∃ front label back, labels = front ++ label :: back ∧ Label.Leads front label back ∧
      diagnostic.primarySpan? = some label.span ∧
      ∃ gutter frame, formatter.ShowsFrame terminal diagnostic label.span frame ∧
        (frame.map (·.number)).Nodup ∧
        (∀ line ∈ frame, line.ShowsText label.span.source gutter) ∧
        ∀ offset : Nat, label.span.contains offset = true →
          label.span.source.text[offset]? ≠ some '\n' →
          Frame.markUnder frame label.span.source gutter offset = some '^' ∧
              (∀ later ∈ back, later.span.source = label.span.source → ¬ later.Covers offset) ∨
            Frame.markUnder frame label.span.source gutter offset = some '-' ∧
              ∃ later ∈ back, later.span.source = label.span.source ∧ later.Covers offset := by
  intro diagnostic
  obtain ⟨front, label, back, rfl, hleads⟩ := Label.exists_leads hne
  have hprimary := Diagnostic.primarySpan?_make hleads code severity message notes help
  have hlabels := Diagnostic.inBounds_make hleads hbounds code severity message notes help
    label.span.source
  have hin := Diagnostic.labelsIn_make hleads code severity message notes help
  obtain ⟨hframe, gutter, hnumbers, hlines, hreached⟩ :=
    showsFrame_make hleads hbounds hcolors hcap code message notes help
  refine ⟨front, label, back, rfl, hleads, hprimary, gutter, _, hframe, hnumbers,
    fun line hline => (hlines line hline).1, fun offset hoffset hc => ?_⟩
  rw [hin] at hlabels
  obtain ⟨-, hstop⟩ := hbounds label (by simp)
  have hstart : label.span.start ≤ offset ∧ offset < label.span.stop := by
    simpa [Span.contains] using hoffset
  obtain ⟨row, hrow, mark, hmark, hcase⟩ := Frame.exists_row_of_covers hlabels rfl
    (fun other hmem => Label.secondary_of_mem_map hmem) (by omega) hc (.inl hstart) gutter
  have hbetween := (Label.covers_iff (hbounds label (by simp)) offset).mp (.inl hstart)
  have hunder := Frame.markUnder_eq (fun line hline => (hlines line hline).2)
    (hreached _ (Source.position_line_le _ _) (Frame.onLine_of_between hbetween.1 hbetween.2))
    (hin ▸ hrow)
  rw [hunder, hmark]
  obtain ⟨rfl, hnone⟩ | ⟨rfl, later, hlater, hcovers⟩ := hcase
  · refine .inl ⟨rfl, fun later hmem hsource hcovers => ?_⟩
    have hlater : later ∈ back.filter (·.span.source = label.span.source) :=
      List.mem_filter.mpr ⟨hmem, decide_eq_true hsource⟩
    exact hnone later.secondary (List.mem_map_of_mem hlater) hcovers
  · obtain ⟨given, hgiven, rfl⟩ := List.mem_map.mp hlater
    obtain ⟨hmem, hsource⟩ := List.mem_filter.mp hgiven
    exact .inr ⟨rfl, given, hmem, of_decide_eq_true hsource, hcovers⟩

/-- Over two lines the primary label lies on an earlier label and under a later one; a label in
another source comes later still. -/
theorem format_marks_primary_crossing :
    let source := Source.ofString "demo" "abcd\nefgh"
    let other := Source.ofString "else" "abcd\nefgh"
    let labels : List Label :=
      [⟨⟨source, 0, 3, by decide⟩, none, false⟩, ⟨⟨source, 1, 7, by decide⟩, some "here", true⟩,
        ⟨⟨source, 3, 6, by decide⟩, none, false⟩, ⟨⟨other, 2, 3, by decide⟩, none, false⟩]
    let diagnostic := Diagnostic.make "E1" .error "No" labels [] none
    let formatter := fresh .never 20
    let terminal : Terminal := ⟨true, false⟩
    labels ≠ [] ∧ (∀ label ∈ labels, label.span.InBounds) ∧
      formatter.mode.usesColors terminal = false ∧
      (count .error formatter).errors ≤ formatter.maxErrors ∧
      (formatter.made diagnostic terminal).toOption =
        some ("Error [E1]: No\n  --> demo:1:2\n   |\n1 | abcd\n  | -^^- here\n" ++
          "2 | efgh\n  | -^\n") ∧
      ∃ front label back, labels = front ++ label :: back ∧ Label.Leads front label back ∧
        diagnostic.primarySpan? = some label.span ∧
        ∃ gutter frame, formatter.ShowsFrame terminal diagnostic label.span frame ∧
          (frame.map (·.number)).Nodup ∧
          (∀ line ∈ frame, line.ShowsText label.span.source gutter) ∧
          ∀ offset : Nat, label.span.contains offset = true →
            label.span.source.text[offset]? ≠ some '\n' →
            Frame.markUnder frame label.span.source gutter offset = some '^' ∧
                (∀ later ∈ back, later.span.source = label.span.source → ¬ later.Covers offset) ∨
              Frame.markUnder frame label.span.source gutter offset = some '-' ∧
                ∃ later ∈ back, later.span.source = label.span.source ∧ later.Covers offset := by
  intro source other labels diagnostic formatter terminal
  have hbounds : ∀ label ∈ labels, label.span.InBounds := by decide +kernel
  have hcap : (count .error formatter).errors ≤ formatter.maxErrors := by decide
  exact ⟨List.cons_ne_nil _ _, hbounds, rfl, hcap, by decide +kernel,
    format_marks_primary (List.cons_ne_nil _ _) hbounds rfl hcap "E1" "No" [] none⟩

/-- A later label within the primary one takes a caret away. -/
theorem format_marks_primary_overlaid :
    let source := Source.ofString "demo" "abc"
    let span : Span := ⟨source, 0, 3, by decide⟩
    let diagnostic := Diagnostic.make "E1" .error "No"
      [⟨span, none, true⟩, ⟨⟨source, 1, 2, by decide⟩, none, false⟩] [] none
    let formatter := fresh .never 20
    let terminal : Terminal := ⟨true, false⟩
    formatter.mode.usesColors terminal = false ∧
      (count diagnostic.severity formatter).errors ≤ formatter.maxErrors ∧
      diagnostic.primarySpan? = some span ∧
      (∀ label ∈ diagnostic.labels, label.span.InBounds) ∧
      ∃ frame, formatter.ShowsFrame terminal diagnostic span frame ∧
        frame.map (fun line => (line.number, line.content, line.underline)) =
          [(1, "1 | abc", some "  | ^-^")] ∧
        ¬ ∀ offset : Nat, span.contains offset = true → source.text[offset]? ≠ some '\n' →
          Frame.markUnder frame source 1 offset = some '^' := by
  intro source span diagnostic formatter terminal
  have hcap : (count diagnostic.severity formatter).errors ≤ formatter.maxErrors := by decide
  have hbounds : ∀ label ∈ diagnostic.labels, label.span.InBounds := by decide +kernel
  refine ⟨rfl, hcap, rfl, hbounds, _,
    showsFrame rfl hcap rfl fun label hmem => hbounds label (List.mem_of_mem_filter hmem),
    by decide +kernel, fun hcarets => ?_⟩
  have hdash : Frame.markUnder (Frame.linesAround source
      ((diagnostic.labelsIn source).map Label.located)) source 1 1 = some '-' := by
    decide +kernel
  have hcaret := hcarets 1 (by decide) (by decide)
  rw [hdash] at hcaret
  exact absurd hcaret (by decide)

end Formatter

end ClassLang
