import ClassLang.Proofs.Report.Underline

/-! # The primary label

Of the labels of a diagnostic the first that claims to be primary is so, or the first of all if none
claims it. The report names the place where this label begins, and if the label has something to say
it is said beside the marks of the line it begins on, whatever else begins there.
-/

namespace ClassLang

namespace Label

variable {labels front back : List Label} {label : Label}

/-- The label between the others is the first that claims to be primary, or no label does and it is
the first of all. -/
def Leads (front : List Label) (label : Label) (back : List Label) : Prop :=
  (∀ other ∈ front, other.primary = false) ∧
    (label.primary = true ∨
      label.primary = false ∧ front = [] ∧ ∀ other ∈ back, other.primary = false)

/-- One of the labels leads. -/
theorem exists_leads (hne : labels ≠ []) :
    ∃ front label back, labels = front ++ label :: back ∧ Leads front label back := by
  cases hfind : labels.find? (·.primary) with
  | some label =>
      obtain ⟨hprimary, front, back, hsplit, hfront⟩ := List.find?_eq_some_iff_append.mp hfind
      exact ⟨front, label, back, hsplit, fun other hmem => by simpa using hfront other hmem,
        .inl hprimary⟩
  | none =>
      obtain ⟨label, back, rfl⟩ := List.exists_cons_of_ne_nil hne
      have hnone : ∀ other ∈ label :: back, other.primary = false := fun other hmem =>
        Bool.eq_false_iff.mpr (List.find?_eq_none.mp hfind other hmem)
      obtain ⟨hlabel, hback⟩ := List.forall_mem_cons.mp hnone
      exact ⟨[], label, back, rfl, List.forall_mem_nil _, .inr ⟨hlabel, rfl, hback⟩⟩

theorem map_secondary_eq_self (hnone : ∀ label ∈ labels, label.primary = false) :
    labels.map secondary = labels := by
  refine (List.map_congr_left fun label hmem => ?_).trans (List.map_id labels)
  rw [secondary, ← hnone label hmem]
  rfl

theorem firstClaim_append (hfront : ∀ other ∈ front, other.primary = false) (rest : List Label) :
    firstClaim (front ++ rest) = front ++ firstClaim rest := by
  induction front with
  | nil => rfl
  | cons other front ih =>
      obtain ⟨hother, hfront⟩ := List.forall_mem_cons.mp hfront
      rw [List.cons_append, firstClaim, if_neg (Bool.eq_false_iff.mp hother), ih hfront]
      rfl

/-- The label that leads is made primary, the others are made secondary, and all keep their
order. -/
theorem Leads.withOnePrimary_eq (hleads : Leads front label back) :
    withOnePrimary (front ++ label :: back) =
      front.map secondary ++ { label with primary := true } :: back.map secondary := by
  obtain ⟨hfront, hclaims | ⟨hlabel, rfl, hback⟩⟩ := hleads
  · have hany : (front ++ label :: back).any (·.primary) = true := by simp [hclaims]
    unfold withOnePrimary
    rw [if_pos hany, firstClaim_append hfront, firstClaim, if_pos hclaims,
      map_secondary_eq_self hfront, ← hclaims]
  · have hany : ¬ ([] ++ label :: back).any (·.primary) = true := by simpa [hlabel] using hback
    unfold withOnePrimary
    rw [if_neg hany, map_secondary_eq_self hback]
    rfl

theorem secondary_of_mem_map {other : Label} (hmem : other ∈ labels.map secondary) :
    other.primary = false := by
  obtain ⟨label, -, rfl⟩ := List.mem_map.mp hmem
  rfl

end Label

/-! ## Diagnostics with a primary label -/

namespace Diagnostic

variable {front back : List Label} {label : Label}

theorem primarySpan?_make (hleads : Label.Leads front label back) (code : String)
    (severity : Severity) (message : String) (notes : List String) (help : Option String) :
    (make code severity message (front ++ label :: back) notes help).primarySpan? =
      some label.span := by
  have hfront : (front.map Label.secondary).find? (·.primary) = none :=
    List.find?_eq_none.mpr fun other hmem =>
      Bool.eq_false_iff.mp (Label.secondary_of_mem_map hmem)
  rw [primarySpan?, make, hleads.withOnePrimary_eq, List.find?_append, hfront, Option.none_or,
    List.find?_cons_of_pos rfl]
  rfl

/-- Making one label primary leaves the spans of the labels as they are. -/
theorem inBounds_make (hleads : Label.Leads front label back)
    (hbounds : ∀ other ∈ front ++ label :: back, other.span.InBounds) (code : String)
    (severity : Severity) (message : String) (notes : List String) (help : Option String)
    (source : Source) :
    ∀ other ∈ (make code severity message (front ++ label :: back) notes help).labelsIn source,
      other.span.source = source ∧ other.span.InBounds := by
  intro other hmem
  obtain ⟨hmem, hsource⟩ := List.mem_filter.mp hmem
  have hspans : (Label.withOnePrimary (front ++ label :: back)).map (·.span) =
      (front ++ label :: back).map (·.span) := by
    rw [hleads.withOnePrimary_eq, List.map_append, List.map_cons, List.map_map, List.map_map,
      List.map_append]
    rfl
  have hspan : other.span ∈ (front ++ label :: back).map (·.span) :=
    hspans ▸ List.mem_map_of_mem hmem
  obtain ⟨given, hgiven, heq⟩ := List.mem_map.mp hspan
  exact ⟨of_decide_eq_true hsource, heq ▸ hbounds given hgiven⟩

/-- The labels of a diagnostic in the primary label's source. -/
theorem labelsIn_make (hleads : Label.Leads front label back) (code : String)
    (severity : Severity) (message : String) (notes : List String) (help : Option String) :
    (make code severity message (front ++ label :: back) notes help).labelsIn label.span.source =
      (front.filter (·.span.source = label.span.source)).map Label.secondary ++
        { label with primary := true } ::
          (back.filter (·.span.source = label.span.source)).map Label.secondary := by
  rw [labelsIn, make, hleads.withOnePrimary_eq, List.filter_append,
    List.filter_cons_of_pos (by exact decide_eq_true rfl), List.filter_map, List.filter_map]
  rfl

end Diagnostic

/-! ## The primary label in the frame -/

namespace Frame

section Remark

variable {front back : List LabelPlace} {place : LabelPlace} {line : Nat} {text : String}

/-- What the primary label has to say is said, whatever other labels would say. -/
theorem remark_of_primary (hfront : ∀ other ∈ front, other.label.primary = false)
    (hprimary : place.label.primary = true) (htext : place.remark? line = some text) :
    remark (front ++ place :: back) line = [.plain " ", Style.brightRed.paint text] := by
  have hspeaks : (place.remark? line).isSome = true := by rw [htext]; rfl
  have hsilent : (front.filter fun other => (other.remark? line).isSome).find?
      (·.label.primary) = none :=
    List.find?_eq_none.mpr fun other hmem =>
      Bool.eq_false_iff.mp (hfront other (List.mem_of_mem_filter hmem))
  unfold remark
  dsimp only
  rw [List.filter_append, List.filter_cons_of_pos (by exact hspeaks), List.find?_append, hsilent,
    Option.none_or, List.find?_cons_of_pos (by exact hprimary), Option.some_or]
  dsimp only
  rw [if_pos hprimary, htext, Option.getD_some]

end Remark

section Labels

variable {source : Source} {front back : List Label} {label : Label} {line : Nat} {text : String}

/-- The places of the labels that reach a line, one of them told apart. -/
theorem filter_onLine_located (honLine : label.OnLine line) :
    ((front ++ label :: back).map Label.located).filter (·.onLine line) =
      (front.map Label.located).filter (·.onLine line) ++
        label.located :: (back.map Label.located).filter (·.onLine line) := by
  rw [List.map_append, List.map_cons, List.filter_append,
    List.filter_cons_of_pos (by exact Label.onLine_located.mpr honLine)]

/-- A label reaches the lines from that of its first to that of its last character. -/
theorem onLine_of_between {offset : Nat} (hstart : label.span.start.toNat ≤ offset)
    (hlast : offset ≤ label.span.last.toNat) :
    label.OnLine (label.span.source.position offset).line :=
  ⟨Source.position_line_mono hstart, Source.position_line_mono hlast⟩

theorem onLine_start (label : Label) :
    label.OnLine (label.span.source.position label.span.start.toNat).line :=
  onLine_of_between (Nat.le_refl _) (Int.toNat_le_toNat (Int.le_max_left _ _))

/-- The marks of the line that the primary label begins on end with what the label says. -/
theorem underline_of_primary
    (hlabels : ∀ other ∈ front ++ label :: back, other.span.source = source ∧ other.span.InBounds)
    (hfront : ∀ other ∈ front, other.primary = false) (hprimary : label.primary = true)
    (htext : text ∈ label.text) (hne : text ≠ "") (gutter : Nat) :
    ∃ marks, (∀ mark ∈ marks, mark = '^' ∨ mark = '-' ∨ mark = ' ') ∧
      (frameLine source ((front ++ label :: back).map Label.located) gutter
          (source.position label.span.start.toNat).line).underline =
        some (padLeft gutter "" ++ " | " ++ String.ofList marks ++ " " ++ text) := by
  have hmem : label ∈ front ++ label :: back := by simp
  obtain ⟨rfl, hbounds⟩ := hlabels label hmem
  have honLine := onLine_start label
  have hremark : label.located.remark?
      (label.span.source.position label.span.start.toNat).line = some text := by
    have hfilter : label.text.filter (· ≠ "") = some text := by
      rw [Option.mem_def.mp htext, Option.filter_some, if_pos (decide_eq_true hne)]
    exact (if_pos rfl).trans hfilter
  generalize hnumber : (label.span.source.position label.span.start.toNat).line = number at *
  obtain ⟨start, hstart, hposition⟩ := Source.exists_position_eq
    (hnumber ▸ Source.one_le_position_line _ _) (hnumber ▸ Source.position_line_le _ _)
  have hmarks := (isEmpty_markRow_onLine hlabels hstart hposition).mpr ⟨label, hmem, honLine⟩
  refine ⟨markRow (((front ++ label :: back).map Label.located).filter (·.onLine number)) number
    (label.span.source.lineText start).length, fun mark hmark => eq_of_mem_markRow hmark, ?_⟩
  rw [underline_frameLine hposition, underline?, if_neg (Bool.eq_false_iff.mp hmarks),
    filter_onLine_located honLine, remark_of_primary ?silent hprimary hremark]
  case silent =>
    intro other hother
    obtain ⟨place, hplace, rfl⟩ := List.mem_map.mp (List.mem_of_mem_filter hother)
    exact hfront place hplace
  simp [Styled.render, Piece.render, Style.paint, String.append_assoc]

end Labels

/-- The lines of a frame have different numbers, and every line that a label reaches is there. -/
theorem exists_gutter_linesAround {diagnostic : Diagnostic} {source : Source}
    (hlabels : diagnostic.labelsIn source ≠ []) :
    let frame := linesAround source ((diagnostic.labelsIn source).map Label.located)
    ∃ gutter, (frame.map (·.number)).Nodup ∧
      (∀ line ∈ frame, 1 ≤ line.number ∧ line.number ≤ source.lineCount ∧ line =
        frameLine source ((diagnostic.labelsIn source).map Label.located) gutter line.number) ∧
      ∀ label ∈ diagnostic.labelsIn source, ∀ number ≤ source.lineCount, label.OnLine number →
        ∃ line ∈ frame, line.number = number := by
  obtain ⟨first, last, hfirst, hlast, hnumbers, hlines⟩ := exists_bounds_linesAround hlabels
  refine ⟨(toString (min source.lineCount (last + 1))).length, ?_, fun line hline => ?_,
    fun label hlabel number hcount honLine => ?_⟩
  · rw [hnumbers]
    exact List.nodup_range'
  · obtain ⟨number, hone, hbottom, rfl⟩ := hlines line hline
    exact ⟨hone, by change number ≤ _; omega, rfl⟩
  · have hsource : label.span.source = source := of_decide_eq_true (List.mem_filter.mp hlabel).2
    obtain ⟨hbegin, hend⟩ := honLine
    rw [hsource] at hbegin hend
    have hle := hfirst.2 ⟨label, hlabel, .inl rfl⟩
    have hge := hlast.2 ⟨label, hlabel, .inr rfl⟩
    have hone := source.one_le_position_line label.span.start.toNat
    have hmem : number ∈ (linesAround source
        ((diagnostic.labelsIn source).map Label.located)).map (·.number) := by
      rw [hnumbers, List.mem_range'_1]
      omega
    exact List.mem_map.mp hmem

end Frame

namespace Formatter

variable {formatter : Formatter} {terminal : Terminal} {severity : Severity} {labels : List Label}

/-- The frame of a report shows every line that the primary label reaches. -/
theorem showsFrame_make {front back : List Label} {label : Label}
    (hleads : Label.Leads front label back)
    (hbounds : ∀ other ∈ front ++ label :: back, other.span.InBounds)
    (hcolors : formatter.mode.usesColors terminal = false)
    (hcap : (count severity formatter).errors ≤ formatter.maxErrors) (code message : String)
    (notes : List String) (help : Option String) :
    let diagnostic := Diagnostic.make code severity message (front ++ label :: back) notes help
    let places := (diagnostic.labelsIn label.span.source).map Label.located
    let frame := Frame.linesAround label.span.source places
    formatter.ShowsFrame terminal diagnostic label.span frame ∧
      ∃ gutter, (frame.map (·.number)).Nodup ∧
        (∀ line ∈ frame, line.ShowsText label.span.source gutter ∧
          line = Frame.frameLine label.span.source places gutter line.number) ∧
        ∀ number ≤ label.span.source.lineCount, label.OnLine number →
          ∃ line ∈ frame, line.number = number := by
  intro diagnostic places frame
  have hprimary := Diagnostic.primarySpan?_make hleads code severity message notes help
  have hlabels := Diagnostic.inBounds_make hleads hbounds code severity message notes help
    label.span.source
  obtain ⟨other, hmem, hspan⟩ := Diagnostic.exists_mem_labelsIn hprimary
  obtain ⟨gutter, hnumbers, hlines, hreached⟩ :=
    Frame.exists_gutter_linesAround (List.ne_nil_of_mem hmem)
  refine ⟨showsFrame hcolors hcap hprimary fun other hmem => (hlabels other hmem).2, gutter,
    hnumbers, fun line hline => ?_, fun number hcount honLine => ?_⟩
  · obtain ⟨hone, hcount, heq⟩ := hlines line hline
    refine ⟨?_, heq⟩
    rw [heq]
    exact Frame.showsText_frameLine hone hcount _ _
  · refine hreached other hmem number hcount ?_
    rwa [Label.OnLine, hspan]

/-- **A report is about the primary label.** Whatever labels claim to be primary, one of them is
made so: the first that claims it, or else the first of all. Nothing else about the labels changes.
The report names the place where this label begins, and below the text of the line it begins on the
marks end with what it has to say. -/
theorem format_about_primary (hne : labels ≠ [])
    (hbounds : ∀ label ∈ labels, label.span.InBounds)
    (hcolors : formatter.mode.usesColors terminal = false)
    (hcap : (count severity formatter).errors ≤ formatter.maxErrors) (code message : String)
    (notes : List String) (help : Option String) :
    let diagnostic := Diagnostic.make code severity message labels notes help
    ∃ front label back, labels = front ++ label :: back ∧ Label.Leads front label back ∧
      diagnostic.labels = front.map Label.secondary ++
        { label with primary := true } :: back.map Label.secondary ∧
      diagnostic.primarySpan? = some label.span ∧
      ∃ gutter frame, formatter.ShowsFrame terminal diagnostic label.span frame ∧
        (frame.map (·.number)).Nodup ∧
        (∀ line ∈ frame, line.ShowsText label.span.source gutter) ∧
        ∀ text ∈ label.text, text ≠ "" →
          ∃ line ∈ frame,
            line.number = (label.span.source.position label.span.start.toNat).line ∧
            ∃ marks : List Char, (∀ mark ∈ marks, mark = '^' ∨ mark = '-' ∨ mark = ' ') ∧
              line.underline = some (Frame.padLeft gutter "" ++ " | " ++ String.ofList marks ++
                " " ++ text) := by
  intro diagnostic
  obtain ⟨front, label, back, rfl, hleads⟩ := Label.exists_leads hne
  have hprimary := Diagnostic.primarySpan?_make hleads code severity message notes help
  have hlabels := Diagnostic.inBounds_make hleads hbounds code severity message notes help
    label.span.source
  have hin := Diagnostic.labelsIn_make hleads code severity message notes help
  obtain ⟨hframe, gutter, hnumbers, hlines, hreached⟩ :=
    showsFrame_make hleads hbounds hcolors hcap code message notes help
  refine ⟨front, label, back, rfl, hleads, hleads.withOnePrimary_eq, hprimary, gutter, _, hframe,
    hnumbers, fun line hline => (hlines line hline).1, fun text htext htextne => ?_⟩
  obtain ⟨line, hline, hnumber⟩ :=
    hreached _ (Source.position_line_le _ _) (Frame.onLine_start label)
  rw [hin] at hlabels
  obtain ⟨marks, hmarks, hunderline⟩ := Frame.underline_of_primary hlabels
    (fun other hmem => Label.secondary_of_mem_map hmem) rfl htext htextne gutter
  refine ⟨line, hline, hnumber, marks, hmarks, ?_⟩
  rw [(hlines line hline).2, hin, hnumber]
  exact hunderline

/-- Of four labels two claim to be primary, and three begin on one line with something to say. -/
theorem format_about_primary_second_claim :
    let source := Source.ofString "demo" "let x = y;"
    let other := Source.ofString "else" "z"
    let labels : List Label :=
      [⟨⟨source, 4, 5, by decide⟩, some "set", false⟩, ⟨⟨other, 0, 1, by decide⟩, none, false⟩,
        ⟨⟨source, 8, 9, by decide⟩, some "here", true⟩,
        ⟨⟨source, 0, 3, by decide⟩, some "too", true⟩]
    let diagnostic := Diagnostic.make "E1" .error "No" labels [] none
    let formatter := fresh .never 20
    let terminal : Terminal := ⟨true, false⟩
    labels ≠ [] ∧ (∀ label ∈ labels, label.span.InBounds) ∧
      formatter.mode.usesColors terminal = false ∧
      (count .error formatter).errors ≤ formatter.maxErrors ∧
      (formatter.made diagnostic terminal).toOption =
        some ("Error [E1]: No\n  --> demo:1:9\n   |\n1 | let x = y;\n" ++
          "  | --- -   ^ here\n") ∧
      ∃ front label back, labels = front ++ label :: back ∧ Label.Leads front label back ∧
        diagnostic.labels = front.map Label.secondary ++
          { label with primary := true } :: back.map Label.secondary ∧
        diagnostic.primarySpan? = some label.span ∧
        ∃ gutter frame, formatter.ShowsFrame terminal diagnostic label.span frame ∧
          (frame.map (·.number)).Nodup ∧
          (∀ line ∈ frame, line.ShowsText label.span.source gutter) ∧
          ∀ text ∈ label.text, text ≠ "" →
            ∃ line ∈ frame,
              line.number = (label.span.source.position label.span.start.toNat).line ∧
              ∃ marks : List Char, (∀ mark ∈ marks, mark = '^' ∨ mark = '-' ∨ mark = ' ') ∧
                line.underline = some (Frame.padLeft gutter "" ++ " | " ++ String.ofList marks ++
                  " " ++ text) := by
  intro source other labels diagnostic formatter terminal
  have hbounds : ∀ label ∈ labels, label.span.InBounds := by decide +kernel
  have hcap : (count .error formatter).errors ≤ formatter.maxErrors := by decide
  exact ⟨List.cons_ne_nil _ _, hbounds, rfl, hcap, by decide +kernel,
    format_about_primary (List.cons_ne_nil _ _) hbounds rfl hcap "E1" "No" [] none⟩

end Formatter

end ClassLang
