import Mathlib.Order.Bounds.Basic
import ClassLang.Proofs.Report.Place
import ClassLang.Proofs.Source.Lines

/-! # The lines of a code frame

A report shows the lines that the labels in the primary label's source begin and end on, what lies
between them, and one more line on either side. Every line stands behind its number, and under it
at most one row of marks. Labels in other sources do not count.
-/

namespace ClassLang

/-! ## Trimmed texts -/

namespace Text

/-- Nothing but blanks is dropped. -/
theorem exists_trimEnd_append (text : List Char) :
    ∃ blanks, text = trimEnd text ++ blanks ∧ ∀ c ∈ blanks, isBlank c = true := by
  refine ⟨(text.reverse.takeWhile isBlank).reverse, ?_, fun c hmem => ?_⟩
  · rw [trimEnd, ← List.reverse_append, List.takeWhile_append_dropWhile, List.reverse_reverse]
  · exact List.mem_takeWhile_imp (List.mem_reverse.mp hmem)

/-- What stands before a character that is not blank is kept. -/
theorem trimEnd_append_of_not_blank (front : List Char) {c : Char} (hc : isBlank c = false)
    (back : List Char) : trimEnd (front ++ c :: back) = front ++ c :: trimEnd back := by
  have hreverse : (front ++ c :: back).reverse = back.reverse ++ (c :: front.reverse) := by simp
  rw [trimEnd, hreverse, List.dropWhile_append, trimEnd]
  split
  case isTrue hempty => simp [List.isEmpty_iff.mp hempty, hc]
  case isFalse => simp

end Text

/-! ## Reports with a frame -/

/-- A line in a frame: its number, the row that shows it and the row of marks under it, if there is
one. -/
structure FrameLine where
  number : Nat
  content : String
  underline : Option String

/-- The rows of a line in a frame. -/
def FrameLine.rows (line : FrameLine) : List String := line.content :: line.underline.toList

instance (span : Span) : Decidable span.InBounds :=
  inferInstanceAs (Decidable (0 ≤ span.start ∧ span.stop ≤ span.source.length))

/-- The labels of a diagnostic in a source. -/
def Diagnostic.labelsIn (diagnostic : Diagnostic) (source : Source) : List Label :=
  diagnostic.labels.filter (·.span.source = source)

/-- The report of a diagnostic without colors that shows the given rows below the place. -/
def Diagnostic.textAround (diagnostic : Diagnostic) (span : Span) (rows : List String) : String :=
  "\n".intercalate
    ([s!"{diagnostic.severity.title} [{diagnostic.code}]: {diagnostic.message}",
        s!"  --> {span.source.uri}:{span.source.position span.start.toNat}", "   |"] ++
      rows ++ diagnostic.remarks.map (Styled.render false) ++ [""])

/-- The formatter answers the diagnostic with a report that shows this frame. -/
def Formatter.ShowsFrame (formatter : Formatter) (terminal : Terminal) (diagnostic : Diagnostic)
    (span : Span) (frame : List FrameLine) : Prop :=
  format terminal diagnostic formatter =
    .ok (diagnostic.textAround span (frame.flatMap FrameLine.rows))
      (count diagnostic.severity formatter)

theorem Styled.render_unlines (colors : Bool) (lines : List Styled) :
    render colors (unlines lines) = "\n".intercalate (lines.map (render colors)) := by
  induction lines with
  | nil => rfl
  | cons first rest ih =>
      cases rest with
      | nil => simp [unlines, render]
      | cons second more =>
          rw [render_unlines_cons, ih]
          simp only [List.map_cons, String.intercalate_cons_cons]

/-! ## The frame of a report -/

namespace Frame

variable {source : Source} {places : List LabelPlace} {gutter line width : Nat}

/-- The row of marks under a line, without colors. -/
def underline? (places : List LabelPlace) (gutter line width : Nat) : Option String :=
  if (markRow places line width).isEmpty then none
  else
    some (padLeft gutter "" ++ " | " ++ String.ofList (markRow places line width) ++
      Styled.render false (remark places line))

/-- A line in the frame around labels. -/
def frameLine (source : Source) (places : List LabelPlace) (gutter line : Nat) : FrameLine :=
  let content := source.lines[line - 1]?.getD []
  ⟨line,
    String.ofList
      (Text.trimEnd (padLeft gutter (toString line) ++ " | " ++ String.ofList content).toList),
    underline? (places.filter (·.onLine line)) gutter line content.length⟩

theorem render_contentRow (gutter line : Nat) (content : List Char) :
    Styled.render false (contentRow gutter line content) =
      String.ofList (Text.trimEnd
        (padLeft gutter (toString line) ++ " | " ++ String.ofList content).toList) := by
  have hrow : (padLeft gutter (toString line) ++ " | " ++ String.ofList content).toList =
      ((padLeft gutter (toString line)).toList ++ [' ']) ++ '|' :: ' ' :: content := by
    simp [String.toList_append]
  rw [hrow, Text.trimEnd_append_of_not_blank _ (by decide)]
  apply String.toList_injective
  simp [Styled.render, contentRow, Piece.render, Style.paint, bar]

theorem render_map_paintMark (marks : List Char) :
    Styled.render false (marks.map paintMark) = String.ofList marks := by
  induction marks with
  | nil => rfl
  | cons mark marks ih =>
      have hmark : (paintMark mark).render false = String.ofList [mark] := by
        unfold paintMark
        split
        case isTrue hcaret => rw [hcaret]; rfl
        case isFalse =>
          split
          case isTrue hdash => rw [hdash]; rfl
          case isFalse => rfl
      rw [List.map_cons, ← List.singleton_append, Styled.render_append, ih]
      apply String.toList_injective
      simp [Styled.render, hmark]

theorem map_render_underline (places : List LabelPlace) (gutter line width : Nat) :
    (underline places gutter line width).map (Styled.render false) =
      (underline? places gutter line width).toList := by
  unfold underline underline?
  dsimp only
  split
  case isTrue => rfl
  case isFalse =>
    rw [List.map_singleton, Styled.render_append, Styled.render_append, render_map_paintMark]
    simp [Styled.render, Piece.render, Style.paint, bar, String.append_assoc]

theorem filter_range'_one {first : Nat} (hfirst : 1 ≤ first) (last count : Nat) :
    (List.range' 1 count).filter (fun line => first ≤ line && line ≤ last) =
      List.range' first (min count last + 1 - first) := by
  induction count with
  | zero =>
      rw [Nat.zero_min, Nat.sub_eq_zero_of_le hfirst]
      rfl
  | succ count ih =>
      rw [List.range'_concat, List.filter_append, ih, Nat.one_mul, List.filter_singleton,
        cond_eq_ite]
      split
      case isTrue hshown =>
        obtain ⟨hle, hle'⟩ : first ≤ 1 + count ∧ 1 + count ≤ last := by simpa using hshown
        have hcount : min (count + 1) last + 1 - first = min count last + 1 - first + 1 := by omega
        rw [hcount, List.range'_concat, Nat.one_mul]
        congr 2
        omega
      case isFalse hhidden =>
        have hout : ¬ (first ≤ 1 + count ∧ 1 + count ≤ last) := by simpa using hhidden
        have hcount : min (count + 1) last + 1 - first = min count last + 1 - first := by omega
        rw [hcount, List.append_nil]

theorem zipIdx_one_eq {α : Type} (items : List α) (default : α) :
    items.zipIdx 1 =
      (List.range' 1 items.length).map fun number => (items[number - 1]?.getD default, number) := by
  refine List.ext_getElem (by simp) fun index hindex _ => ?_
  have hlt : index < items.length := by simpa using hindex
  simp [hlt]

/-- The lines from one on to another that there is, with their numbers. -/
theorem filter_zipIdx_lines {first last : Nat} (hfirst : 1 ≤ first)
    (hlast : last ≤ source.lineCount) :
    (source.lines.zipIdx 1).filter (fun (_, line) => first ≤ line && line ≤ last) =
      (List.range' first (last + 1 - first)).map fun line =>
        (source.lines[line - 1]?.getD [], line) := by
  rw [zipIdx_one_eq _ [], List.filter_map]
  have hrange := filter_range'_one hfirst last source.lines.length
  rw [source.length_lines, Nat.min_eq_right hlast] at hrange
  rw [← hrange, source.length_lines]
  rfl

theorem map_render_rows (source : Source) (places : List LabelPlace) {first last : Nat}
    (hbounds : bounds source.lineCount
      (places.flatMap fun place => [place.first.line, place.last.line]) = (first, last)) :
    (rows source places).map (Styled.render false) =
      ((List.range' first (last + 1 - first)).map
        (frameLine source places (toString last).length)).flatMap FrameLine.rows := by
  have hfirst : 1 ≤ first := by
    rw [← (Prod.mk.inj hbounds).1]
    exact Nat.le_max_left _ _
  have hlast : last ≤ source.lineCount := by
    rw [← (Prod.mk.inj hbounds).2]
    exact Nat.min_le_left _ _
  unfold rows
  simp only [hbounds]
  rw [filter_zipIdx_lines hfirst hlast, List.map_flatMap, List.flatMap_map, List.flatMap_map]
  refine List.flatMap_congr fun line _ => ?_
  rw [List.map_cons, render_contentRow, map_render_underline]
  rfl

/-- The lines in the frame around labels. -/
def linesAround (source : Source) (places : List LabelPlace) : List FrameLine :=
  let (first, last) := bounds source.lineCount
    (places.flatMap fun place => [place.first.line, place.last.line])
  (List.range' first (last + 1 - first)).map (frameLine source places (toString last).length)

end Frame

/-- A label within its source, in its place. -/
def Label.located (label : Label) : LabelPlace :=
  ⟨label, label.span.source.position label.span.start.toNat,
    label.span.source.position label.span.last.toNat⟩

theorem LabelPlace.mapM_locate {labels : List Label}
    (hbounds : ∀ label ∈ labels, label.span.InBounds) :
    labels.mapM locate = .ok (labels.map Label.located) := by
  induction labels with
  | nil => rfl
  | cons label labels ih =>
      obtain ⟨hlabel, hlabels⟩ := List.forall_mem_cons.mp hbounds
      have hlocate : locate label = .ok label.located := by
        rw [locate, Span.positions_of_inBounds hlabel]
        rfl
      rw [List.mapM_cons, hlocate, ih hlabels]
      rfl

namespace Diagnostic

variable {diagnostic : Diagnostic} {span : Span}

/-- The primary label is one of those in its source. -/
theorem exists_mem_labelsIn (hprimary : diagnostic.primarySpan? = some span) :
    ∃ label ∈ diagnostic.labelsIn span.source, label.span = span := by
  obtain ⟨label, hlabel, rfl⟩ := Option.map_eq_some_iff.mp hprimary
  refine ⟨label, List.mem_filter.mpr ⟨List.mem_of_find?_eq_some hlabel, ?_⟩, rfl⟩
  exact decide_eq_true rfl

/-- With the labels in its source within the text, a diagnostic is reported. -/
theorem report_of_inBounds (hprimary : diagnostic.primarySpan? = some span)
    (hbounds : ∀ label ∈ diagnostic.labelsIn span.source, label.span.InBounds) :
    diagnostic.report = .ok (Styled.unlines
      ([[diagnostic.header],
          [Style.brightBlue.paint
            s!"  --> {span.source.uri}:{span.source.position span.start.toNat}"],
          [Style.brightBlue.paint "   |"]] ++
        Frame.rows span.source ((diagnostic.labelsIn span.source).map Label.located) ++
        diagnostic.remarks ++ [[]])) := by
  obtain ⟨label, hmem, hspan⟩ := exists_mem_labelsIn hprimary
  have hpositions := Span.positions_of_inBounds (hspan ▸ hbounds label hmem)
  have hsome : ((diagnostic.labelsIn span.source).map Label.located).isEmpty = false := by
    rw [List.isEmpty_eq_false_iff]
    exact List.ne_nil_of_mem (List.mem_map_of_mem hmem)
  have hframe : diagnostic.frame span.source =
      .ok (Frame.rows span.source ((diagnostic.labelsIn span.source).map Label.located)) := by
    unfold frame
    change (diagnostic.labelsIn span.source).mapM LabelPlace.locate >>= _ = _
    rw [LabelPlace.mapM_locate hbounds]
    change Except.ok (if _ then _ else _) = _
    rw [hsome]
    rfl
  rw [report, place, hprimary]
  dsimp only
  rw [hpositions, hframe]
  rfl

end Diagnostic

namespace Formatter

variable {formatter : Formatter} {terminal : Terminal} {diagnostic : Diagnostic} {span : Span}

/-- Without colors and below the limit, a diagnostic is answered with the frame around the labels in
the source of the primary one. -/
theorem showsFrame (hcolors : formatter.mode.usesColors terminal = false)
    (hcap : (count diagnostic.severity formatter).errors ≤ formatter.maxErrors)
    (hprimary : diagnostic.primarySpan? = some span)
    (hbounds : ∀ label ∈ diagnostic.labelsIn span.source, label.span.InBounds) :
    formatter.ShowsFrame terminal diagnostic span
      (Frame.linesAround span.source ((diagnostic.labelsIn span.source).map Label.located)) := by
  have hrows := Frame.map_render_rows span.source
    ((diagnostic.labelsIn span.source).map Label.located) rfl
  have hmade : formatter.made diagnostic terminal = .ok (diagnostic.textAround span
      ((Frame.linesAround span.source
        ((diagnostic.labelsIn span.source).map Label.located)).flatMap FrameLine.rows)) := by
    rw [made, if_neg (Int.not_lt.mpr hcap), Diagnostic.report_of_inBounds hprimary hbounds]
    refine congrArg Except.ok ?_
    rw [render, hcolors, Styled.render_unlines, Diagnostic.textAround]
    simp only [List.map_append, hrows]
    rfl
  rw [ShowsFrame, format_eq, hmade]

end Formatter

/-! ## The lines that are shown -/

/-- A label of the diagnostic in the source begins or ends on the line. -/
def Diagnostic.Touches (diagnostic : Diagnostic) (source : Source) (line : Nat) : Prop :=
  ∃ label ∈ diagnostic.labelsIn source,
    line = (source.position label.span.start.toNat).line ∨
      line = (source.position label.span.last.toNat).line

/-- The row of the line is its number on the right of the gutter, a bar and the text of the line as
it is found at every offset on it, without the blanks at the end. -/
def FrameLine.ShowsText (line : FrameLine) (source : Source) (gutter : Nat) : Prop :=
  (∃ offset ≤ source.length, (source.position offset).line = line.number) ∧
    ∀ offset ≤ source.length, (source.position offset).line = line.number →
      line.content = String.ofList (Text.trimEnd
        (Frame.padLeft gutter (toString line.number) ++ " | " ++
          String.ofList (source.lineText offset)).toList)

namespace Frame

variable {source : Source} {places : List LabelPlace} {gutter line : Nat} {lines : List Nat}

theorem exists_isLeast (hlines : lines ≠ []) : ∃ first, IsLeast {line | line ∈ lines} first := by
  obtain ⟨first, hfirst⟩ := Option.ne_none_iff_exists'.mp (mt List.min?_eq_none_iff.mp hlines)
  exact ⟨first, List.min?_eq_some_iff.mp hfirst⟩

theorem exists_isGreatest (hlines : lines ≠ []) :
    ∃ last, IsGreatest {line | line ∈ lines} last := by
  obtain ⟨last, hlast⟩ := Option.ne_none_iff_exists'.mp (mt List.max?_eq_none_iff.mp hlines)
  exact ⟨last, List.max?_eq_some_iff.mp hlast⟩

theorem bounds_eq {first last : Nat} (hfirst : IsLeast {line | line ∈ lines} first)
    (hlast : IsGreatest {line | line ∈ lines} last) (lineCount : Nat) :
    bounds lineCount lines = (max 1 (first - 1), min lineCount (last + 1)) := by
  have hmin : lines.min? = some first := List.min?_eq_some_iff.mpr hfirst
  have hmax : lines.max? = some last := List.max?_eq_some_iff.mpr hlast
  rw [bounds, hmin, hmax]
  rfl

theorem showsText_frameLine (hline : 1 ≤ line) (hle : line ≤ source.lineCount)
    (places : List LabelPlace) (gutter : Nat) :
    (frameLine source places gutter line).ShowsText source gutter := by
  obtain ⟨start, hstart, hposition⟩ := source.exists_position_eq hline hle
  refine ⟨⟨start, hstart, by rw [hposition]; rfl⟩, fun offset _ hoffset => ?_⟩
  have hcontent := source.lines_getElem?_position offset
  rw [hoffset] at hcontent
  unfold frameLine at hcontent ⊢
  dsimp only at hcontent ⊢
  rw [hcontent, Option.getD_some]

/-- A row of marks stands behind an empty gutter. -/
theorem exists_marks_of_underline? {width : Nat} {row : String}
    (hrow : row ∈ underline? places gutter line width) :
    ∃ marks, row = padLeft gutter "" ++ " | " ++ marks := by
  unfold underline? at hrow
  split at hrow
  case isTrue => cases hrow
  case isFalse =>
    obtain rfl := Option.some.inj hrow
    exact ⟨_, String.append_assoc⟩

theorem touches_iff {diagnostic : Diagnostic} {source : Source} {line : Nat} :
    diagnostic.Touches source line ↔
      line ∈ ((diagnostic.labelsIn source).map Label.located).flatMap fun place =>
        [place.first.line, place.last.line] := by
  rw [List.flatMap_map, List.mem_flatMap]
  refine exists_congr fun label => and_congr_right fun hmem => ?_
  have hsource : label.span.source = source := of_decide_eq_true (List.mem_filter.mp hmem).2
  rw [List.mem_pair, Label.located, hsource]

/-- The frame around the labels in a source shows the lines from the one before the first to the one
after the last that one of them touches. -/
theorem exists_bounds_linesAround {diagnostic : Diagnostic} {source : Source}
    (hlabels : diagnostic.labelsIn source ≠ []) :
    ∃ first last, IsLeast {line | diagnostic.Touches source line} first ∧
      IsGreatest {line | diagnostic.Touches source line} last ∧
      let places := (diagnostic.labelsIn source).map Label.located
      let top := max 1 (first - 1)
      let bottom := min source.lineCount (last + 1)
      (linesAround source places).map (·.number) = List.range' top (bottom + 1 - top) ∧
        ∀ line ∈ linesAround source places, ∃ number, 1 ≤ number ∧ number ≤ bottom ∧
          frameLine source places (toString bottom).length number = line := by
  simp only [touches_iff]
  have hne : (((diagnostic.labelsIn source).map Label.located).flatMap fun place =>
      [place.first.line, place.last.line]) ≠ [] := by
    obtain ⟨label, labels, hcons⟩ := List.exists_cons_of_ne_nil hlabels
    simp [hcons]
  obtain ⟨first, hfirst⟩ := exists_isLeast hne
  obtain ⟨last, hlast⟩ := exists_isGreatest hne
  refine ⟨first, last, hfirst, hlast, ?_⟩
  rw [linesAround, bounds_eq hfirst hlast]
  constructor
  · rw [List.map_map]
    exact List.map_id _
  · intro line hline
    obtain ⟨number, hnumber, hmade⟩ := List.mem_map.mp hline
    obtain ⟨htop, hbottom⟩ := List.mem_range'_1.mp hnumber
    exact ⟨number, by omega, by omega, hmade⟩

end Frame

namespace Formatter

variable {formatter : Formatter} {terminal : Terminal} {diagnostic : Diagnostic} {span : Span}

/-- **The frame shows the lines from the one before the first to the one after the last that a label
in the primary label's source begins or ends on.** There is one row for each of them, in order, with
the text of the line behind its number. Labels in other sources make no difference. -/
theorem format_shows_lines (hcolors : formatter.mode.usesColors terminal = false)
    (hcap : (count diagnostic.severity formatter).errors ≤ formatter.maxErrors)
    (hprimary : diagnostic.primarySpan? = some span)
    (hbounds : ∀ label ∈ diagnostic.labelsIn span.source, label.span.InBounds) :
    ∃ first last frame,
      IsLeast {line | diagnostic.Touches span.source line} first ∧
      IsGreatest {line | diagnostic.Touches span.source line} last ∧
      formatter.ShowsFrame terminal diagnostic span frame ∧
      (let top := max 1 (first - 1)
        let bottom := min span.source.lineCount (last + 1)
        frame.map (·.number) = List.range' top (bottom + 1 - top) ∧
        ∀ line ∈ frame, line.ShowsText span.source (toString bottom).length ∧
          ∀ row ∈ line.underline, ∃ marks,
            row = Frame.padLeft (toString bottom).length "" ++ " | " ++ marks) ∧
      ∀ labels, { diagnostic with labels := labels : Diagnostic }.primarySpan? = some span →
        { diagnostic with labels := labels : Diagnostic }.labelsIn span.source =
          diagnostic.labelsIn span.source →
        formatter.ShowsFrame terminal { diagnostic with labels := labels } span frame := by
  obtain ⟨label, hmem, -⟩ := Diagnostic.exists_mem_labelsIn hprimary
  obtain ⟨first, last, hfirst, hlast, hnumbers, hlines⟩ :=
    Frame.exists_bounds_linesAround (List.ne_nil_of_mem hmem)
  refine ⟨first, last, _, hfirst, hlast, showsFrame hcolors hcap hprimary hbounds,
    ⟨hnumbers, ?rows⟩, ?others⟩
  case rows =>
    intro line hline
    obtain ⟨number, hone, hbottom, rfl⟩ := hlines line hline
    exact ⟨Frame.showsText_frameLine hone (by omega) _ _,
      fun row hrow => Frame.exists_marks_of_underline? hrow⟩
  case others =>
    intro labels hprimary' hsame
    have hframe := @showsFrame formatter terminal { diagnostic with labels := labels } span hcolors
      hcap hprimary' (hsame ▸ hbounds)
    rwa [hsame] at hframe

/-- A label on a word, one on a line feed, and one in another source: of five lines four are
shown. -/
theorem format_shows_lines_surrounding :
    let source := Source.ofString "demo" "one\n\ttwo \n\nfour\nfive"
    let other := Source.ofString "else" "x\ny\n"
    let span : Span := ⟨source, 5, 8, by decide⟩
    let diagnostic := Diagnostic.make "E1" .error "No"
      [⟨⟨other, 0, 3, by decide⟩, none, false⟩, ⟨⟨source, 10, 11, by decide⟩, none, false⟩,
        ⟨span, some "here", true⟩] [] none
    let formatter := fresh .never 20
    let terminal : Terminal := ⟨true, false⟩
    formatter.mode.usesColors terminal = false ∧
      (count diagnostic.severity formatter).errors ≤ formatter.maxErrors ∧
      diagnostic.primarySpan? = some span ∧
      (∀ label ∈ diagnostic.labelsIn span.source, label.span.InBounds) ∧
      (formatter.made diagnostic terminal).toOption =
        some ("Error [E1]: No\n  --> demo:2:2\n   |\n1 | one\n2 | \ttwo\n  |  ^^^ here\n" ++
          "3 |\n  | -\n4 | four\n") ∧
      ∃ first last frame,
        IsLeast {line | diagnostic.Touches span.source line} first ∧
        IsGreatest {line | diagnostic.Touches span.source line} last ∧
        formatter.ShowsFrame terminal diagnostic span frame ∧
        (let top := max 1 (first - 1)
          let bottom := min span.source.lineCount (last + 1)
          frame.map (·.number) = List.range' top (bottom + 1 - top) ∧
          ∀ line ∈ frame, line.ShowsText span.source (toString bottom).length ∧
            ∀ row ∈ line.underline, ∃ marks,
              row = Frame.padLeft (toString bottom).length "" ++ " | " ++ marks) ∧
        ∀ labels, { diagnostic with labels := labels : Diagnostic }.primarySpan? = some span →
          { diagnostic with labels := labels : Diagnostic }.labelsIn span.source =
            diagnostic.labelsIn span.source →
          formatter.ShowsFrame terminal { diagnostic with labels := labels } span frame := by
  intro source other span diagnostic formatter terminal
  have hcap : (count diagnostic.severity formatter).errors ≤ formatter.maxErrors := by decide
  have hbounds : ∀ label ∈ diagnostic.labelsIn span.source, label.span.InBounds := by
    decide +kernel
  exact ⟨rfl, hcap, rfl, hbounds, by decide +kernel, format_shows_lines rfl hcap rfl hbounds⟩

end Formatter

end ClassLang
