import ClassLang.Proofs.Report.Answer
import ClassLang.Proofs.Report.Codes

/-! # Colors as decoration

Without its codes a colored report is the report without colors. This holds as long as the
diagnostic quotes no escapes: all else that stands in a report brings none, neither the numbers and
marks of the frame nor the words around what is quoted.
-/

namespace ClassLang

/-! ## Frames without escapes -/

namespace Frame

variable {source : Source} {places : List LabelPlace} {content : List Char}

theorem bare_padLeft (width : Nat) {text : String} (hbare : Text.Bare text.toList) :
    Text.Bare (padLeft width text).toList := by
  rw [padLeft, String.toList_append, String.toList_ofList, Text.bare_append]
  refine ⟨fun hmem => ?_, hbare⟩
  exact absurd (List.eq_of_mem_replicate hmem) (by decide)

theorem trimEnd_subset (text : List Char) : Text.trimEnd text ⊆ text := by
  intro c hmem
  rw [Text.trimEnd, List.mem_reverse] at hmem
  exact List.mem_reverse.mp ((List.dropWhile_sublist _).subset hmem)

theorem bare_contentRow (hcontent : Text.Bare content) (gutter line : Nat) :
    Styled.Bare (contentRow gutter line content) := by
  have htext : Text.Bare (' ' :: content) := by
    rw [← List.singleton_append, Text.bare_append]
    exact ⟨by decide, hcontent⟩
  refine Styled.bare_cons.mpr ⟨bare_padLeft gutter (Text.bare_number line),
    Styled.bare_cons.mpr ⟨by decide, Styled.bare_cons.mpr ⟨by decide,
      Styled.bare_cons.mpr ⟨?_, Styled.bare_nil⟩⟩⟩⟩
  rw [Piece.text, String.toList_ofList]
  exact htext.of_subset (trimEnd_subset _)

theorem cell_eq (places : List LabelPlace) (line width index : Nat) :
    cell places line width index = '^' ∨ cell places line width index = '-' ∨
      cell places line width index = ' ' := by
  unfold cell
  split
  case h_1 place _ => cases hprimary : place.label.primary <;> simp [LabelPlace.mark, hprimary]
  case h_2 => exact .inr (.inr rfl)

/-- A row of marks holds carets, dashes and blanks. -/
theorem eq_of_mem_markRow {line width : Nat} {mark : Char}
    (hmem : mark ∈ markRow places line width) : mark = '^' ∨ mark = '-' ∨ mark = ' ' := by
  obtain ⟨index, -, rfl⟩ := List.mem_map.mp (trimEnd_subset _ hmem)
  exact cell_eq places line width index

theorem bare_markRow (places : List LabelPlace) (line width : Nat) :
    Styled.Bare ((markRow places line width).map paintMark) := by
  refine List.forall_mem_map.mpr fun mark hmem => ?_
  obtain rfl | rfl | rfl := eq_of_mem_markRow hmem
  · decide
  · decide
  · decide

theorem mem_of_mem_remark? {place : LabelPlace} {line : Nat} {text : String}
    (hmem : text ∈ place.remark? line) : text ∈ place.label.text := by
  unfold LabelPlace.remark? at hmem
  split at hmem
  case isTrue => exact (Option.mem_filter_iff.mp hmem).1
  case isFalse => cases hmem

/-- Beside the marks stands nothing or the remark of a label that makes one on the line. -/
theorem remark_cases (places : List LabelPlace) (line : Nat) :
    remark places line = [] ∨
      ∃ place ∈ places, ∃ text ∈ place.remark? line, ∃ style : Style,
        remark places line = [.plain " ", style.paint text] := by
  unfold remark
  dsimp only
  split
  case h_1 => exact .inl rfl
  case h_2 place hplace =>
    have hspeaking : place ∈ places.filter fun place => (place.remark? line).isSome := by
      cases Option.or_eq_some_iff.mp hplace with
      | inl hprimary => exact List.mem_of_find?_eq_some hprimary
      | inr hfirst => exact List.mem_of_head? hfirst.2
    obtain ⟨hmem, hsome⟩ := List.mem_filter.mp hspeaking
    obtain ⟨text, htext⟩ := Option.isSome_iff_exists.mp hsome
    exact .inr ⟨place, hmem, text, htext, _, by rw [htext]; rfl⟩

theorem bare_remark (hplaces : ∀ place ∈ places, ∀ text ∈ place.label.text, Text.Bare text.toList)
    (line : Nat) : Styled.Bare (remark places line) := by
  obtain hnone | ⟨place, hmem, text, htext, style, hremark⟩ := remark_cases places line
  · rw [hnone]
    exact Styled.bare_nil
  · have hbare := hplaces place hmem text (mem_of_mem_remark? htext)
    rw [hremark]
    exact Styled.bare_cons.mpr ⟨by decide, Styled.bare_cons.mpr ⟨hbare, Styled.bare_nil⟩⟩

theorem bare_underline
    (hplaces : ∀ place ∈ places, ∀ text ∈ place.label.text, Text.Bare text.toList)
    (gutter line width : Nat) :
    ∀ row ∈ underline places gutter line width, Styled.Bare row := by
  unfold underline
  dsimp only
  split
  case isTrue => exact fun _ hmem => absurd hmem List.not_mem_nil
  case isFalse =>
    intro row hmem
    have hgutter : Text.Bare (padLeft gutter "").toList := bare_padLeft gutter (by decide)
    have hbar : Styled.Bare [.plain " ", bar, .plain " "] := by decide
    rw [List.mem_singleton.mp hmem, Styled.bare_append, Styled.bare_append]
    exact ⟨⟨Styled.bare_cons.mpr ⟨hgutter, hbar⟩, bare_markRow places line width⟩,
      bare_remark hplaces line⟩

theorem subset_of_mem_splitLines {text line : List Char}
    (hline : line ∈ Source.splitLines text) : line ⊆ text := by
  induction text generalizing line with
  | nil =>
      rw [List.mem_singleton.mp hline]
      exact List.Subset.refl _
  | cons c rest ih =>
      unfold Source.splitLines at hline
      split at hline
      case isTrue =>
        cases hline with
        | head => exact List.nil_subset _
        | tail _ hrest => exact List.subset_cons_of_subset c (ih hrest)
      case isFalse =>
        split at hline
        case h_1 =>
          rw [List.mem_singleton.mp hline]
          exact List.cons_subset_cons c (List.nil_subset _)
        case h_2 first lines hlines =>
          rw [hlines] at ih
          cases hline with
          | head => exact List.cons_subset_cons c (ih List.mem_cons_self)
          | tail _ hrest => exact List.subset_cons_of_subset c (ih (List.mem_cons_of_mem _ hrest))

theorem bare_rows (hsource : Text.Bare source.text)
    (hplaces : ∀ place ∈ places, ∀ text ∈ place.label.text, Text.Bare text.toList) :
    ∀ row ∈ rows source places, Styled.Bare row := by
  unfold rows
  dsimp only
  intro row hmem
  obtain ⟨⟨content, line⟩, hshown, hrow⟩ := List.mem_flatMap.mp hmem
  have hcontent : Text.Bare content := by
    have hline := List.fst_mem_of_mem_zipIdx (List.mem_filter.mp hshown).1
    exact hsource.of_subset (subset_of_mem_splitLines hline)
  cases hrow with
  | head => exact bare_contentRow hcontent _ _
  | tail _ hunder =>
      exact bare_underline (fun place hplace => hplaces place (List.mem_filter.mp hplace).1) _ _ _
        row hunder

end Frame

/-! ## Reports without escapes -/

/-- Nothing that a report of the diagnostic may quote brings escapes. -/
structure Diagnostic.Bare (diagnostic : Diagnostic) : Prop where
  code : Text.Bare diagnostic.code.toList
  message : Text.Bare diagnostic.message.toList
  help : ∀ help ∈ diagnostic.help, Text.Bare help.toList
  notes : ∀ note ∈ diagnostic.notes, Text.Bare note.toList
  remarks : ∀ label ∈ diagnostic.labels, ∀ text ∈ label.text, Text.Bare text.toList
  uris : ∀ label ∈ diagnostic.labels, Text.Bare label.span.source.uri.toList
  texts : ∀ label ∈ diagnostic.labels, Text.Bare label.span.source.text

namespace Diagnostic

variable {diagnostic : Diagnostic} {styled : Styled} {lines : List Styled}

theorem bare_header (hbare : diagnostic.Bare) : Styled.Bare [diagnostic.header] := by
  have htitle : Text.Bare diagnostic.severity.title.toList := by
    cases diagnostic.severity <;> decide
  refine Styled.bare_cons.mpr ⟨?_, Styled.bare_nil⟩
  change Text.Bare (diagnostic.severity.title ++ " [" ++ diagnostic.code ++ "]: " ++
    diagnostic.message).toList
  simp only [String.toList_append, Text.bare_append]
  exact ⟨⟨⟨⟨htitle, by decide⟩, hbare.code⟩, by decide⟩, hbare.message⟩

theorem bare_location {uri : String} (huri : Text.Bare uri.toList) (position : Position) :
    Styled.Bare [Style.brightBlue.paint s!"  --> {uri}:{position}"] := by
  refine Styled.bare_cons.mpr ⟨?_, Styled.bare_nil⟩
  change Text.Bare ("  --> " ++ uri ++ ":" ++
    (toString position.line ++ ":" ++ toString position.column)).toList
  simp only [String.toList_append, Text.bare_append]
  exact ⟨⟨⟨by decide, huri⟩, by decide⟩,
    ⟨Text.bare_number position.line, by decide⟩, Text.bare_number position.column⟩

theorem bare_remarks (hbare : diagnostic.Bare) : ∀ line ∈ diagnostic.remarks, Styled.Bare line := by
  unfold remarks
  intro line hmem
  cases List.mem_append.mp hmem with
  | inl hhelp =>
      obtain ⟨help, hsaid, rfl⟩ := List.mem_map.mp hhelp
      have htext := hbare.help help (Option.mem_filter_iff.mp (Option.mem_toList.mp hsaid)).1
      refine Styled.bare_cons.mpr ⟨?_, Styled.bare_nil⟩
      change Text.Bare ("   = help: " ++ help).toList
      rw [String.toList_append, Text.bare_append]
      exact ⟨by decide, htext⟩
  | inr hnotes =>
      obtain ⟨note, hnote, rfl⟩ := List.mem_map.mp hnotes
      refine Styled.bare_cons.mpr ⟨?_, Styled.bare_nil⟩
      change Text.Bare ("   = note: " ++ note).toList
      rw [String.toList_append, Text.bare_append]
      exact ⟨by decide, hbare.notes note hnote⟩

theorem label_mem_of_mapM_locate {labels : List Label} {places : List LabelPlace}
    (hlocate : labels.mapM LabelPlace.locate = .ok places) :
    ∀ place ∈ places, place.label ∈ labels := by
  induction labels generalizing places with
  | nil =>
      obtain rfl := Except.ok.inj hlocate
      exact fun _ hmem => absurd hmem List.not_mem_nil
  | cons label labels ih =>
      rw [List.mapM_cons] at hlocate
      obtain ⟨place, hplace, hlocate⟩ := exists_of_bind_eq_ok hlocate
      obtain ⟨more, hmore, hplaces⟩ := exists_of_bind_eq_ok hlocate
      obtain ⟨positions, -, hlabel⟩ := exists_of_bind_eq_ok hplace
      obtain rfl := Except.ok.inj hlabel
      obtain rfl := Except.ok.inj hplaces
      exact List.forall_mem_cons.mpr
        ⟨List.mem_cons_self, fun place hmem => List.mem_cons_of_mem _ (ih hmore place hmem)⟩

theorem bare_frame (hbare : diagnostic.Bare) {source : Source} (hsource : Text.Bare source.text)
    (hframe : diagnostic.frame source = .ok lines) : ∀ line ∈ lines, Styled.Bare line := by
  unfold frame at hframe
  obtain ⟨places, hlocate, hlines⟩ := exists_of_bind_eq_ok hframe
  rw [← Except.ok.inj hlines]
  split
  case isTrue => exact fun _ hmem => absurd hmem List.not_mem_nil
  case isFalse =>
    refine Frame.bare_rows hsource fun place hplace => ?_
    exact hbare.remarks _ (List.mem_filter.mp (label_mem_of_mapM_locate hlocate place hplace)).1

theorem bare_place (hbare : diagnostic.Bare) (hplace : diagnostic.place = .ok lines) :
    ∀ line ∈ lines, Styled.Bare line := by
  unfold place at hplace
  split at hplace
  case h_1 =>
    obtain rfl := Except.ok.inj hplace
    exact fun _ hmem => absurd hmem List.not_mem_nil
  case h_2 span hspan =>
    obtain ⟨label, hlabel, rfl⟩ := Option.map_eq_some_iff.mp hspan
    have hmem := List.mem_of_find?_eq_some hlabel
    obtain ⟨positions, -, hrest⟩ := exists_of_bind_eq_ok hplace
    obtain ⟨frame, hframe, hlines⟩ := exists_of_bind_eq_ok hrest
    rw [← Except.ok.inj hlines]
    exact List.forall_mem_cons.mpr ⟨bare_location (hbare.uris label hmem) _,
      List.forall_mem_cons.mpr ⟨by decide, bare_frame hbare (hbare.texts label hmem) hframe⟩⟩

/-- A report of texts without escapes brings none. -/
theorem bare_report (hbare : diagnostic.Bare) (hreport : diagnostic.report = .ok styled) :
    styled.Bare := by
  obtain ⟨place, hplace, rfl⟩ := lines_of_report hreport
  refine Styled.bare_intercalate (by decide) (List.forall_mem_cons.mpr ⟨bare_header hbare, ?_⟩)
  refine List.forall_mem_append.mpr ⟨bare_place hbare hplace, ?_⟩
  exact List.forall_mem_append.mpr ⟨bare_remarks hbare,
    List.forall_mem_singleton.mpr Styled.bare_nil⟩

end Diagnostic

/-! ## Two formatters -/

namespace Formatter

theorem bare_counted (number : Nat) {thing : String} (hthing : Text.Bare thing.toList) :
    Text.Bare (counted number thing).toList := by
  have hplural : Text.Bare (if number = 1 then "" else "s").toList := by
    split <;> decide
  change Text.Bare (toString number ++ " " ++ thing ++ if number = 1 then "" else "s").toList
  simp only [String.toList_append, Text.bare_append]
  exact ⟨⟨⟨Text.bare_number number, by decide⟩, hthing⟩, hplural⟩

theorem bare_summary (formatter : Formatter) : formatter.summary.Bare := by
  have herrors : Styled.Bare [Style.brightRed.paint (counted formatter.errors "error")] :=
    Styled.bare_cons.mpr ⟨bare_counted _ (by decide), Styled.bare_nil⟩
  have hwarnings : Styled.Bare [Style.brightYellow.paint (counted formatter.warnings "warning")] :=
    Styled.bare_cons.mpr ⟨bare_counted _ (by decide), Styled.bare_nil⟩
  have hpart : ∀ (zero : Prop) [Decidable zero] {part : Styled}, part.Bare →
      ∀ line ∈ if zero then [] else [part], Styled.Bare line := by
    intro zero _ part hbare line hmem
    split at hmem
    case isTrue => cases hmem
    case isFalse => rwa [List.mem_singleton.mp hmem]
  have hparts := List.forall_mem_append.mpr
    ⟨hpart (formatter.errors = 0) herrors, hpart (formatter.warnings = 0) hwarnings⟩
  refine iteInduction (fun _ => Styled.bare_nil) fun _ => ?_
  exact Styled.bare_cons.mpr ⟨by decide,
    Styled.bare_append.mpr ⟨Styled.bare_intercalate (by decide) hparts, by decide⟩⟩

/-- **Of two formatters with equal counts and limits, one of which uses colors, both fail with the
same error or both answer with the same text but for the codes.** -/
theorem answer_withoutCodes {diagnostic : Diagnostic} (hbare : diagnostic.Bare)
    {colored plain : Formatter} (hcolored : colored.mode = .always) (hplain : plain.mode = .never)
    (hmaxErrors : colored.maxErrors = plain.maxErrors) (herrors : colored.errors = plain.errors)
    (hwarnings : colored.warnings = plain.warnings) (terminal other : Terminal) :
    (answer (.format diagnostic terminal) colored).1.result.map withoutCodes =
        (answer (.format diagnostic other) plain).1.result ∧
      withoutCodes (answer (.summary terminal) colored).1.written =
        (answer (.summary other) plain).1.written := by
  have hcolors : ∀ {styled : Styled}, styled.Bare →
      withoutCodes (colored.render terminal styled) = plain.render other styled := by
    intro styled hstyled
    rw [render, render, hcolored, hplain]
    exact Styled.withoutCodes_render hstyled
  refine ⟨?format, ?summary⟩
  case format =>
    change (colored.exchange (.format diagnostic terminal)).response.result.map withoutCodes =
      (plain.exchange (.format diagnostic other)).response.result
    rw [exchange_format, exchange_format]
    change (colored.made diagnostic terminal).map withoutCodes = plain.made diagnostic other
    have hcount : (count diagnostic.severity colored).errors =
        (count diagnostic.severity plain).errors := by
      rw [count_errors, count_errors, herrors]
    have hnotice : limitNotice.Bare := by decide
    rw [made, made, hmaxErrors, hcount]
    split
    case isTrue => exact congrArg Except.ok (hcolors hnotice)
    case isFalse =>
      cases hreport : diagnostic.report with
      | error error => rfl
      | ok styled => exact congrArg Except.ok (hcolors (Diagnostic.bare_report hbare hreport))
  case summary =>
    have hsummary : colored.summary = plain.summary := by
      rw [summary, summary, herrors, hwarnings]
    change withoutCodes (colored.render terminal colored.summary) =
      plain.render other plain.summary
    rw [hsummary]
    exact hcolors (bare_summary plain)

/-- An error about the first of two characters on a line that ends in a blank. -/
theorem answer_withoutCodes_labelled :
    let source := Source.ofString "demo" "+ \n"
    let label : Label := ⟨⟨source, 0, 1, by decide⟩, some "here", true⟩
    let diagnostic := Diagnostic.make "E1" .error "No" [label] ["last"] (some "add")
    let colored := fresh .always 20
    let plain := fresh .never 20
    let terminal : Terminal := ⟨true, false⟩
    diagnostic.Bare ∧ colored.mode = .always ∧ plain.mode = .never ∧
      colored.maxErrors = plain.maxErrors ∧ colored.errors = plain.errors ∧
      colored.warnings = plain.warnings ∧
      (answer (.format diagnostic terminal) colored).1.result.map withoutCodes =
        (answer (.format diagnostic terminal) plain).1.result ∧
      withoutCodes (answer (.summary terminal) colored).1.written =
        (answer (.summary terminal) plain).1.written ∧
      (answer (.format diagnostic terminal) plain).1.result.toOption =
        some ("Error [E1]: No\n  --> demo:1:1\n   |\n1 | +\n  | ^ here\n2 |\n" ++
          "   = help: add\n   = note: last\n") := by
  intro source label diagnostic colored plain terminal
  have hbare : diagnostic.Bare := by
    refine ⟨by decide, by decide, ?help, by decide, ?remarks, by decide, by decide⟩
    case help =>
      rintro _ ⟨⟩
      decide
    case remarks =>
      have hlabels : diagnostic.labels = [label] := rfl
      rw [hlabels, List.forall_mem_singleton]
      rintro _ ⟨⟩
      decide
  have hcolored : colored.mode = .always := rfl
  have hplain : plain.mode = .never := rfl
  obtain ⟨hformat, hsummary⟩ :=
    answer_withoutCodes hbare hcolored hplain rfl rfl rfl terminal terminal
  exact ⟨hbare, hcolored, hplain, rfl, rfl, rfl, hformat, hsummary, by decide +kernel⟩

end Formatter

end ClassLang
