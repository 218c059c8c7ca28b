import ClassLang.Proofs.Report.CodeFrame
import ClassLang.Proofs.Report.Colors

/-! # The marks under a line

Under a line that labels touch stands a row of marks: one under each character that a label covers
and none under the others. Carets stand for the primary label, dashes for the others. The row begins
with blanks for the number, so that a mark stands in the column of its character.
-/

namespace ClassLang

namespace Text

theorem trimEnd_eq_nil {text : List Char} (hblank : ∀ c ∈ text, isBlank c = true) :
    trimEnd text = [] := by
  rw [trimEnd, List.reverse_eq_nil_iff, List.dropWhile_eq_nil_iff]
  exact fun c hmem => hblank c (List.mem_reverse.mp hmem)

/-- Where the only blanks are spaces, a text without the blanks at its end reads as before. -/
theorem getD_trimEnd {text : List Char} (hspace : ∀ c ∈ text, isBlank c = true → c = ' ')
    (index : Nat) : (trimEnd text).getD index ' ' = text.getD index ' ' := by
  obtain ⟨blanks, htext, hblanks⟩ := exists_trimEnd_append text
  generalize trimEnd text = trimmed at htext ⊢
  subst htext
  rw [List.getD_eq_getElem?_getD, List.getD_eq_getElem?_getD]
  rcases Nat.lt_or_ge index trimmed.length with hlt | hge
  · rw [List.getElem?_append_left hlt]
  · rw [List.getElem?_eq_none hge, List.getElem?_append_right hge, Option.getD_none]
    cases hc : blanks[index - trimmed.length]? with
    | none => rfl
    | some c =>
        have hmem := List.mem_of_getElem? hc
        rw [hspace c (List.mem_append_right _ hmem) (hblanks c hmem), Option.getD_some]

end Text

/-- The label covers the character at the offset: it lies in the span, or the span is empty and
stands before it. -/
def Label.Covers (label : Label) (offset : Nat) : Prop :=
  label.span.start ≤ offset ∧ offset < label.span.stop ∨
    label.span.start = label.span.stop ∧ label.span.start = offset

/-- The label reaches the line: it begins on it or before it, and ends on it or behind it. -/
def Label.OnLine (label : Label) (line : Nat) : Prop :=
  (label.span.source.position label.span.start.toNat).line ≤ line ∧
    line ≤ (label.span.source.position label.span.last.toNat).line

theorem Label.onLine_located {label : Label} {line : Nat} :
    label.located.onLine line = true ↔ label.OnLine line := by
  rw [LabelPlace.onLine, Bool.and_eq_true, decide_eq_true_iff, decide_eq_true_iff]
  rfl

section Line

variable {source : Source} {label : Label} {line start index : Nat}
  (hbounds : label.span.InBounds)

include hbounds

/-- What a label covers stretches from its first to its last character. -/
theorem Label.covers_iff (offset : Nat) :
    label.Covers offset ↔ label.span.start.toNat ≤ offset ∧ offset ≤ label.span.last.toNat := by
  have hspan := label.span.start_le_stop
  unfold Span.InBounds at hbounds
  unfold Covers Span.last
  omega

variable (hsource : label.span.source = source) (hstart : start ≤ source.length)
  (hposition : source.position start = ⟨line, 1⟩)

include hsource hstart hposition

/-- How the first and the last character of a label are seen from a line. -/
theorem Label.located_cases :
    label.span.start.toNat ≤ label.span.last.toNat ∧
      label.located.first.SeenFrom line start (source.lineText start).length
        label.span.start.toNat ∧
      label.located.last.SeenFrom line start (source.lineText start).length
        label.span.last.toNat := by
  subst hsource
  obtain ⟨hlast, hlastle⟩ := label.span.last_le hbounds
  have hspan := label.span.start_le_stop
  have hle : label.span.start ≤ label.span.last := Int.le_max_left _ _
  exact ⟨by omega, Source.position_cases hstart hposition (by omega),
    Source.position_cases hstart hposition (by omega)⟩

/-- A label that covers a character of a line reaches the line. -/
theorem Label.Covers.onLine (hindex : index < (source.lineText start).length)
    (hcovers : label.Covers (start + index)) : label.OnLine line := by
  obtain ⟨-, hfirst, hlast⟩ := Label.located_cases hbounds hsource hstart hposition
  rw [Label.covers_iff hbounds] at hcovers
  unfold Position.SeenFrom at hfirst hlast
  constructor
  · change label.located.first.line ≤ line
    omega
  · change line ≤ label.located.last.line
    omega

/-- On a line that it reaches a label marks the characters that it covers. -/
theorem Label.marks_located_iff (honLine : label.OnLine line)
    (hindex : index < (source.lineText start).length) :
    label.located.marks line (source.lineText start).length index = true ↔
      label.Covers (start + index) := by
  obtain ⟨hle, hfirst, hlast⟩ := Label.located_cases hbounds hsource hstart hposition
  unfold Position.SeenFrom at hfirst hlast
  obtain ⟨hbegin, hend⟩ : label.located.first.line ≤ line ∧ line ≤ label.located.last.line :=
    honLine
  rw [Label.covers_iff hbounds, LabelPlace.marks]
  simp only [Bool.and_eq_true, decide_eq_true_iff]
  split <;> split <;> omega

/-- Of the cells under a line a label would mark one at least. -/
theorem Label.exists_marks_located :
    ∃ index ≤ (source.lineText start).length,
      label.located.marks line (source.lineText start).length index = true := by
  obtain ⟨-, hfirst, -⟩ := Label.located_cases hbounds hsource hstart hposition
  unfold Position.SeenFrom at hfirst
  refine ⟨if label.located.first.line = line then label.located.first.column - 1 else 0, ?_, ?_⟩
  · split <;> omega
  · simp only [LabelPlace.marks, Bool.and_eq_true, decide_eq_true_iff]
    exact ⟨Nat.le_refl _, by omega⟩

end Line

/-! ## Rows of marks -/

namespace Frame

variable {places : List LabelPlace} {line width index : Nat}

/-- A cell shows the mark of a label that marks it, and a blank if there is none. -/
theorem cell_cases (places : List LabelPlace) (line width index : Nat) :
    (∃ place ∈ places, place.marks line width index = true ∧
        cell places line width index = place.mark) ∨
      (∀ place ∈ places, place.marks line width index = false) ∧
        cell places line width index = ' ' := by
  unfold cell
  split
  case h_1 place hplace =>
    obtain ⟨hmem, hmarks⟩ := List.mem_filter.mp (List.mem_of_getLast? hplace)
    exact .inl ⟨place, hmem, hmarks, rfl⟩
  case h_2 hnone =>
    refine .inr ⟨fun place hmem => ?_, rfl⟩
    have hempty := List.filter_eq_nil_iff.mp (List.getLast?_eq_none_iff.mp hnone) place hmem
    exact Bool.eq_false_iff.mpr hempty

theorem cell_ne_blank_iff :
    cell places line width index ≠ ' ' ↔
      ∃ place ∈ places, place.marks line width index = true := by
  obtain ⟨place, hmem, hmarks, hcell⟩ | ⟨hnone, hcell⟩ := cell_cases places line width index
  · refine ⟨fun _ => ⟨place, hmem, hmarks⟩, fun _ => ?_⟩
    rw [hcell, LabelPlace.mark]
    split <;> decide
  · refine ⟨fun hne => absurd hcell hne, ?_⟩
    rintro ⟨place, hmem, hmarks⟩
    simp [hnone place hmem] at hmarks

/-- Where all labels that mark a cell have the same mark, it shows this mark. -/
theorem cell_eq_mark {mark : Char}
    (hsome : ∃ place ∈ places, place.marks line width index = true)
    (hall : ∀ place ∈ places, place.marks line width index = true → place.mark = mark) :
    cell places line width index = mark := by
  obtain ⟨place, hmem, hmarks, hcell⟩ | ⟨hnone, -⟩ := cell_cases places line width index
  · exact hcell.trans (hall place hmem hmarks)
  · obtain ⟨place, hmem, hmarks⟩ := hsome
    simp [hnone place hmem] at hmarks

/-- The blanks that are left out at the end of a row of marks aside, it shows all cells. -/
theorem getD_markRow (hindex : index ≤ width) :
    (markRow places line width).getD index ' ' = cell places line width index := by
  have hspace : ∀ c ∈ (List.range (width + 1)).map (cell places line width),
      Text.isBlank c = true → c = ' ' := by
    intro c hmem hblank
    obtain ⟨index, -, rfl⟩ := List.mem_map.mp hmem
    obtain hcaret | hdash | hblank' := cell_eq places line width index
    · rw [hcaret] at hblank
      exact absurd hblank (by decide)
    · rw [hdash] at hblank
      exact absurd hblank (by decide)
    · exact hblank'
  rw [markRow, Text.getD_trimEnd hspace, List.getD_eq_getElem?_getD, List.getElem?_map,
    List.getElem?_range (Nat.lt_succ_of_le hindex)]
  rfl

/-- A marked cell is one of those that the row shows. -/
theorem getElem?_markRow_of_cell {mark : Char} (hmark : mark ≠ ' ') (hindex : index ≤ width)
    (hcell : cell places line width index = mark) :
    (markRow places line width)[index]? = some mark := by
  have hget := (getD_markRow hindex).trans hcell
  rw [List.getD_eq_getElem?_getD] at hget
  generalize (markRow places line width)[index]? = shown at hget ⊢
  cases shown with
  | none => exact absurd hget.symm hmark
  | some c => exact congrArg some hget

/-- There is a row of marks just when a cell is marked. -/
theorem isEmpty_markRow :
    (markRow places line width).isEmpty = false ↔
      ∃ index ≤ width, cell places line width index ≠ ' ' := by
  rw [List.isEmpty_eq_false_iff]
  constructor
  · intro hne
    by_contra hblank
    simp only [not_exists, not_and, not_not] at hblank
    refine hne (Text.trimEnd_eq_nil fun c hmem => ?_)
    obtain ⟨index, hindex, rfl⟩ := List.mem_map.mp hmem
    rw [hblank index (Nat.le_of_lt_succ (List.mem_range.mp hindex))]
    rfl
  · rintro ⟨index, hindex, hne⟩ hnil
    rw [← getD_markRow hindex, hnil] at hne
    exact hne rfl

/-- A number takes no more room than a greater one. -/
theorem length_toString_le {number greater : Nat} (hle : number ≤ greater) :
    (toString number).length ≤ (toString greater).length := by
  have hlength (number : Nat) : (toString number).length = (Nat.toDigits 10 number).length := by
    rw [Nat.toString_eq_ofList_toDigits, String.length_ofList]
  have hpos : 0 < (Nat.toDigits 10 greater).length := Nat.length_toDigits_pos
  rw [hlength, hlength, Nat.length_toDigits_le_iff (by decide) hpos]
  exact Nat.lt_of_le_of_lt hle ((Nat.length_toDigits_le_iff (by decide) hpos).mp (Nat.le_refl _))

theorem length_padLeft {gutter : Nat} {text : String} (hle : text.length ≤ gutter) :
    (padLeft gutter text).length = gutter := by
  rw [padLeft, String.length_append, String.length_ofList, List.length_replicate,
    Nat.sub_add_cancel hle]

end Frame

/-! ## The marks of labels -/

/-- The marks under a line that begins at an offset and has a number of characters: one under each
character that a label covers, a caret if only primary labels do and a dash if none of them does,
and blanks under the others. -/
structure MarksCovered (labels : List Label) (start width : Nat) (marks : List Char) : Prop where
  plain : ∀ mark ∈ marks, mark = '^' ∨ mark = '-' ∨ mark = ' '
  marked_iff : ∀ index < width,
    marks.getD index ' ' ≠ ' ' ↔ ∃ label ∈ labels, label.Covers (start + index)
  caret : ∀ index < width, (∃ label ∈ labels, label.Covers (start + index)) →
    (∀ label ∈ labels, label.Covers (start + index) → label.primary = true) →
    marks[index]? = some '^'
  dash : ∀ index < width, (∃ label ∈ labels, label.Covers (start + index)) →
    (∀ label ∈ labels, label.Covers (start + index) → label.primary = false) →
    marks[index]? = some '-'

/-- A row of marks stands under the line just when a label reaches it. The marks stand behind an
empty gutter, and beside them nothing or the text of a label that begins on the line. -/
structure FrameLine.Underlined (line : FrameLine) (labels : List Label) (gutter start width : Nat) :
    Prop where
  isSome_iff : line.underline.isSome = true ↔ ∃ label ∈ labels, label.OnLine line.number
  row : ∀ row ∈ line.underline, ∃ marks remark,
    row = Frame.padLeft gutter "" ++ " | " ++ String.ofList marks ++ remark ∧
      MarksCovered labels start width marks ∧
      (remark = "" ∨ ∃ label ∈ labels, ∃ text ∈ label.text, remark = " " ++ text ∧
        (label.span.source.position label.span.start.toNat).line = line.number)

namespace Frame

section Labels

variable {source : Source} {labels : List Label} {line start index : Nat}
  (hlabels : ∀ label ∈ labels, label.span.source = source ∧ label.span.InBounds)
  (hstart : start ≤ source.length) (hposition : source.position start = ⟨line, 1⟩)

include hposition in
/-- The row of marks under a line is as wide as the text of the line. -/
theorem underline_frameLine (places : List LabelPlace) (gutter : Nat) :
    (frameLine source places gutter line).underline =
      underline? (places.filter (·.onLine line)) gutter line (source.lineText start).length := by
  rw [frameLine, Source.lines_getElem?_start hposition]
  rfl

theorem mem_filter_onLine {place : LabelPlace} :
    place ∈ (labels.map Label.located).filter (·.onLine line) ↔
      ∃ label ∈ labels, label.OnLine line ∧ label.located = place := by
  rw [List.mem_filter, List.mem_map]
  constructor
  · rintro ⟨⟨label, hmem, rfl⟩, honLine⟩
    exact ⟨label, hmem, Label.onLine_located.mp honLine, rfl⟩
  · rintro ⟨label, hmem, honLine, rfl⟩
    exact ⟨⟨label, hmem, rfl⟩, Label.onLine_located.mpr honLine⟩

include hlabels hstart hposition

/-- The labels that mark a cell under a character are those that cover the character. -/
theorem marks_iff_covers (hindex : index < (source.lineText start).length) {place : LabelPlace} :
    (place ∈ (labels.map Label.located).filter (·.onLine line) ∧
        place.marks line (source.lineText start).length index = true) ↔
      ∃ label ∈ labels, label.Covers (start + index) ∧ label.located = place := by
  rw [mem_filter_onLine]
  constructor
  · rintro ⟨⟨label, hmem, honLine, rfl⟩, hmarks⟩
    obtain ⟨hsource, hbounds⟩ := hlabels label hmem
    exact ⟨label, hmem,
      (Label.marks_located_iff hbounds hsource hstart hposition honLine hindex).mp hmarks, rfl⟩
  · rintro ⟨label, hmem, hcovers, rfl⟩
    obtain ⟨hsource, hbounds⟩ := hlabels label hmem
    have honLine := hcovers.onLine hbounds hsource hstart hposition hindex
    exact ⟨⟨label, hmem, honLine, rfl⟩,
      (Label.marks_located_iff hbounds hsource hstart hposition honLine hindex).mpr hcovers⟩

/-- A cell under a character is marked just when a label covers the character. -/
theorem exists_marks_iff (hindex : index < (source.lineText start).length) :
    (∃ place ∈ (labels.map Label.located).filter (·.onLine line),
      place.marks line (source.lineText start).length index = true) ↔
        ∃ label ∈ labels, label.Covers (start + index) := by
  constructor
  · rintro ⟨place, hmem, hmarks⟩
    obtain ⟨label, hlabel, hcovers, -⟩ :=
      (marks_iff_covers hlabels hstart hposition hindex).mp ⟨hmem, hmarks⟩
    exact ⟨label, hlabel, hcovers⟩
  · rintro ⟨label, hlabel, hcovers⟩
    obtain ⟨hmem, hmarks⟩ :=
      (marks_iff_covers hlabels hstart hposition hindex).mpr ⟨label, hlabel, hcovers, rfl⟩
    exact ⟨_, hmem, hmarks⟩

/-- Under a character that labels with one and the same mark cover stands this mark. -/
theorem getElem?_markRow {mark : Char} (hmark : mark ≠ ' ')
    (hindex : index < (source.lineText start).length)
    (hsome : ∃ label ∈ labels, label.Covers (start + index))
    (hall : ∀ label ∈ labels, label.Covers (start + index) → label.located.mark = mark) :
    (markRow ((labels.map Label.located).filter (·.onLine line)) line
      (source.lineText start).length)[index]? = some mark := by
  have hcell : cell ((labels.map Label.located).filter (·.onLine line)) line
      (source.lineText start).length index = mark := by
    refine cell_eq_mark ((exists_marks_iff hlabels hstart hposition hindex).mpr hsome) ?_
    intro place hmem hmarks
    obtain ⟨label, hlabel, hcovers, rfl⟩ :=
      (marks_iff_covers hlabels hstart hposition hindex).mp ⟨hmem, hmarks⟩
    exact hall label hlabel hcovers
  exact getElem?_markRow_of_cell hmark (Nat.le_of_lt hindex) hcell

theorem marksCovered_markRow :
    MarksCovered labels start (source.lineText start).length
      (markRow ((labels.map Label.located).filter (·.onLine line)) line
        (source.lineText start).length) := by
  refine ⟨fun mark hmem => eq_of_mem_markRow hmem, fun index hindex => ?marked,
    fun index hindex hcovered hall => ?caret, fun index hindex hcovered hall => ?dash⟩
  case marked =>
    rw [getD_markRow (Nat.le_of_lt hindex), cell_ne_blank_iff,
      exists_marks_iff hlabels hstart hposition hindex]
  case caret | dash =>
    refine getElem?_markRow hlabels hstart hposition (by decide) hindex hcovered ?_
    intro label hmem hcovers
    rw [LabelPlace.mark, Label.located, hall label hmem hcovers]
    rfl

/-- There are marks under a line just when a label reaches it. -/
theorem isEmpty_markRow_onLine :
    (markRow ((labels.map Label.located).filter (·.onLine line)) line
        (source.lineText start).length).isEmpty = false ↔
      ∃ label ∈ labels, label.OnLine line := by
  rw [isEmpty_markRow]
  simp only [cell_ne_blank_iff, mem_filter_onLine]
  constructor
  · rintro ⟨index, -, place, ⟨label, hmem, honLine, -⟩, -⟩
    exact ⟨label, hmem, honLine⟩
  · rintro ⟨label, hmem, honLine⟩
    obtain ⟨hsource, hbounds⟩ := hlabels label hmem
    obtain ⟨index, hindex, hmarks⟩ :=
      Label.exists_marks_located hbounds hsource hstart hposition
    exact ⟨index, hindex, _, ⟨label, hmem, honLine, rfl⟩, hmarks⟩

theorem underlined_frameLine (gutter : Nat) :
    (frameLine source (labels.map Label.located) gutter line).Underlined labels gutter start
      (source.lineText start).length := by
  have hunderline := underline_frameLine hposition (labels.map Label.located) gutter
  have hempty := isEmpty_markRow_onLine hlabels hstart hposition
  unfold underline? at hunderline
  split at hunderline
  case isTrue hnone =>
    have hunreached : ¬ ∃ label ∈ labels, label.OnLine line := fun hreached =>
      Bool.false_ne_true ((hempty.mpr hreached).symm.trans hnone)
    refine ⟨?_, fun row hrow => ?_⟩
    · rw [hunderline]
      exact iff_of_false Bool.false_ne_true hunreached
    · rw [hunderline] at hrow
      cases hrow
  case isFalse hmarks =>
    refine ⟨?_, fun row hrow => ?_⟩
    · rw [hunderline]
      exact iff_of_true rfl (hempty.mp (Bool.eq_false_iff.mpr hmarks))
    rw [hunderline] at hrow
    refine ⟨_, _, (Option.some.inj hrow).symm, marksCovered_markRow hlabels hstart hposition, ?_⟩
    obtain hnone | ⟨place, hmem, text, htext, style, hremark⟩ :=
      remark_cases ((labels.map Label.located).filter (·.onLine line)) line
    · exact .inl (by rw [hnone]; rfl)
    · obtain ⟨label, hlabel, -, rfl⟩ := mem_filter_onLine.mp hmem
      refine .inr ⟨label, hlabel, text, mem_of_mem_remark? htext, ?_, ?_⟩
      · rw [hremark]
        simp [Styled.render, Piece.render, Style.paint]
      · unfold LabelPlace.remark? at htext
        split at htext
        case isTrue hfirst => exact hfirst
        case isFalse => cases htext

end Labels

end Frame

namespace Formatter

variable {formatter : Formatter} {terminal : Terminal} {diagnostic : Diagnostic} {span : Span}

/-- **The rows of marks mark what the labels cover.** A line that is shown has a row of marks under
it just when a label in the primary label's source reaches it. Under the characters of the line the
row has marks just where such a label covers them, in the column of the character. -/
theorem format_marks_covered (hcolors : formatter.mode.usesColors terminal = false)
    (hcap : (count diagnostic.severity formatter).errors ≤ formatter.maxErrors)
    (hprimary : diagnostic.primarySpan? = some span)
    (hbounds : ∀ label ∈ diagnostic.labelsIn span.source, label.span.InBounds) :
    ∃ top bottom frame,
      formatter.ShowsFrame terminal diagnostic span frame ∧
      frame.map (·.number) = List.range' top (bottom + 1 - top) ∧
      ∀ line ∈ frame, ∃ start ≤ span.source.length,
        span.source.position start = ⟨line.number, 1⟩ ∧
        line.ShowsText span.source (toString bottom).length ∧
        (Frame.padLeft (toString bottom).length "" ++ " | ").length =
          (Frame.padLeft (toString bottom).length (toString line.number) ++ " | ").length ∧
        line.Underlined (diagnostic.labelsIn span.source) (toString bottom).length start
          (span.source.lineText start).length := by
  obtain ⟨label, hmem, -⟩ := Diagnostic.exists_mem_labelsIn hprimary
  obtain ⟨first, last, -, -, hnumbers, hlines⟩ :=
    Frame.exists_bounds_linesAround (List.ne_nil_of_mem hmem)
  have hlabels : ∀ label ∈ diagnostic.labelsIn span.source,
      label.span.source = span.source ∧ label.span.InBounds := fun label hmem =>
    ⟨of_decide_eq_true (List.mem_filter.mp hmem).2, hbounds label hmem⟩
  refine ⟨max 1 (first - 1), min span.source.lineCount (last + 1), _,
    showsFrame hcolors hcap hprimary hbounds, hnumbers, fun line hline => ?_⟩
  obtain ⟨number, hone, hbottom, rfl⟩ := hlines line hline
  have hle : number ≤ span.source.lineCount := by omega
  obtain ⟨start, hstart, hposition⟩ := Source.exists_position_eq hone hle
  refine ⟨start, hstart, hposition, Frame.showsText_frameLine hone hle _ _, ?columns,
    Frame.underlined_frameLine hlabels hstart hposition _⟩
  case columns =>
    have hlength := Frame.length_toString_le hbottom
    rw [String.length_append, String.length_append, Frame.length_padLeft (Nat.zero_le _)]
    exact congrArg (· + _) (Frame.length_padLeft hlength).symm

/-- Two labels that overlap, one of them over an empty line, and an empty one at the end of the
text. -/
theorem format_marks_covered_overlapping :
    let source := Source.ofString "demo" "a\tbc\n\nde\nf"
    let other := Source.ofString "else" "xyz"
    let span : Span := ⟨source, 2, 4, by decide⟩
    let diagnostic := Diagnostic.make "E1" .error "No"
      [⟨⟨source, 3, 7, by decide⟩, some "from here", false⟩, ⟨span, none, true⟩,
        ⟨⟨source, 10, 10, by decide⟩, some "end", false⟩, ⟨⟨other, 0, 3, by decide⟩, none, false⟩]
      [] none
    let formatter := fresh .never 20
    let terminal : Terminal := ⟨true, false⟩
    formatter.mode.usesColors terminal = false ∧
      (count diagnostic.severity formatter).errors ≤ formatter.maxErrors ∧
      diagnostic.primarySpan? = some span ∧
      (∀ label ∈ diagnostic.labelsIn span.source, label.span.InBounds) ∧
      (formatter.made diagnostic terminal).toOption =
        some ("Error [E1]: No\n  --> demo:1:3\n   |\n1 | a\tbc\n  |   ^^ from here\n" ++
          "2 |\n  | -\n3 | de\n  | -\n4 | f\n  |  - end\n") ∧
      ∃ top bottom frame,
        formatter.ShowsFrame terminal diagnostic span frame ∧
        frame.map (·.number) = List.range' top (bottom + 1 - top) ∧
        ∀ line ∈ frame, ∃ start ≤ span.source.length,
          span.source.position start = ⟨line.number, 1⟩ ∧
          line.ShowsText span.source (toString bottom).length ∧
          (Frame.padLeft (toString bottom).length "" ++ " | ").length =
            (Frame.padLeft (toString bottom).length (toString line.number) ++ " | ").length ∧
          line.Underlined (diagnostic.labelsIn span.source) (toString bottom).length start
            (span.source.lineText start).length := by
  intro source other span diagnostic formatter terminal
  have hcap : (count diagnostic.severity formatter).errors ≤ formatter.maxErrors := by decide
  have hbounds : ∀ label ∈ diagnostic.labelsIn span.source, label.span.InBounds := by
    decide +kernel
  exact ⟨rfl, hcap, rfl, hbounds, by decide +kernel, format_marks_covered rfl hcap rfl hbounds⟩

end Formatter

end ClassLang
