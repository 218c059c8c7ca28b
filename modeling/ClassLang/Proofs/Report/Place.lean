import ClassLang.Proofs.Reading.Refusals
import ClassLang.Proofs.Report.Answer
import ClassLang.Proofs.Source.Positions

/-! # The place of a failure

A failure is about a token, and this token begins within the text. So whatever is made of the
failure can be made: the compile error, the record of its label, the report and the message. All of
them name the position where the token begins.
-/

namespace ClassLang

variable {source : Source} {token : Token} {failure : Failure}

/-- The token that a failure is about. -/
def Failure.token? : Failure → Option Token
  | .lexical error => some error.token
  | .grammatical error => some error.token
  | .integerTooLong _ | .noPrecedence _ => none

/-! ## Spans within the text -/

theorem Span.last_le {span : Span} (hspan : span.InBounds) :
    0 ≤ span.last ∧ span.last ≤ span.source.length := by
  obtain ⟨hstart, hstop⟩ := hspan
  have hle := span.start_le_stop
  unfold last
  omega

/-- A span within the text has positions. -/
theorem Span.positions_of_inBounds {span : Span} (hspan : span.InBounds) :
    span.positions =
      .ok (span.source.position span.start.toNat, span.source.position span.last.toNat) := by
  obtain ⟨hlast, hlastle⟩ := span.last_le hspan
  obtain ⟨hstart, hstop⟩ := hspan
  have hstartle := Int.le_trans span.start_le_stop hstop
  rw [positions, Source.positionAt_of_le hstart hstartle, Source.positionAt_of_le hlast hlastle]
  rfl

namespace PlacedToken

variable (placed : PlacedToken)

theorem span_inBounds : placed.span.InBounds := by
  have hpos := placed.pos_le_length
  unfold Span.InBounds span
  dsimp only
  omega

/-- Only at the end of the text is nothing marked. -/
theorem pos_eq_of_span_empty (hempty : placed.span.start = placed.span.stop) :
    placed.token.pos = placed.source.length := by
  have hpos := placed.pos_le_length
  unfold span at hempty
  dsimp only at hempty
  omega

theorem span_positions :
    placed.span.positions =
      .ok (placed.position, placed.source.position placed.span.last.toNat) :=
  Span.positions_of_inBounds placed.span_inBounds

end PlacedToken

/-! ## Diagnostics with one label -/

section Single

variable {diagnostic : Diagnostic} {label : Label} {first last : Position}

theorem Diagnostic.records_single (hlabels : diagnostic.labels = [label])
    (hpositions : label.span.positions = .ok (first, last)) :
    diagnostic.records = .ok [⟨label.span.source.uri, label.span.start, label.span.stop, first,
      label.text, label.primary⟩] := by
  simp [records, hlabels, record, hpositions, bind, Except.bind, pure, Except.pure]

theorem Diagnostic.frame_single (hlabels : diagnostic.labels = [label])
    (hpositions : label.span.positions = .ok (first, last)) :
    diagnostic.frame label.span.source =
      .ok (Frame.rows label.span.source [⟨label, first, last⟩]) := by
  simp [frame, hlabels, LabelPlace.locate, hpositions, bind, Except.bind, pure, Except.pure]

/-- The report begins with the header and the place. -/
theorem Diagnostic.report_single (hlabels : diagnostic.labels = [label])
    (hprimary : label.primary = true)
    (hpositions : label.span.positions = .ok (first, last)) :
    ∃ frame, diagnostic.report = .ok (Styled.unlines ([diagnostic.header] ::
      [Style.brightBlue.paint s!"  --> {label.span.source.uri}:{first}"] ::
        [Style.brightBlue.paint "   |"] :: frame)) := by
  have hspan : diagnostic.primarySpan? = some label.span := by
    simp [primarySpan?, hlabels, hprimary]
  refine ⟨Frame.rows label.span.source [⟨label, first, last⟩] ++ (diagnostic.remarks ++ [[]]), ?_⟩
  simp [report, place, hspan, hpositions, frame_single hlabels hpositions, bind, Except.bind,
    pure, Except.pure]

/-- Before the limit a report is written as it is made. -/
theorem Formatter.format_fresh {styled : Styled} {maxErrors : Int}
    (hreport : diagnostic.report = .ok styled) (mode : ColorMode) (terminal : Terminal)
    (hmax : 1 ≤ maxErrors) :
    ∃ next, format terminal diagnostic (.fresh mode maxErrors) =
      .ok (styled.render (mode.usesColors terminal)) next := by
  have hfew : ¬ (fresh mode maxErrors).maxErrors <
      (count diagnostic.severity (fresh mode maxErrors)).errors := by
    rw [count_errors]
    dsimp only [fresh]
    split <;> omega
  have hmade : (fresh mode maxErrors).made diagnostic terminal =
      .ok (styled.render (mode.usesColors terminal)) := by
    rw [made, if_neg hfew, hreport]
    rfl
  exact ⟨count diagnostic.severity (fresh mode maxErrors), by rw [format_eq, hmade]⟩

end Single

/-! ## What points at a token -/

/-- All that is made of the refusal names the place in the source where the token begins. -/
structure CompileError.PointsAt (refusal : CompileError) (source : Source) (token : Token) :
    Prop where
  tokens : ∃ placed, refusal.tokens = [placed] ∧ placed.source = source ∧ placed.token = token
  /-- There is one label. It is primary, begins with the token, and marks something unless the
  text is at its end. -/
  label : ∃ label, refusal.diagnostic.labels = [label] ∧ label.primary = true ∧
    label.span.source = source ∧ label.span.start = token.pos ∧
    0 ≤ label.span.start ∧ label.span.start ≤ label.span.stop ∧
    label.span.stop ≤ source.length ∧
    (label.span.start = label.span.stop → token.pos = source.length)
  /-- The label is recorded with the position. -/
  record : ∃ record, refusal.diagnostic.records = .ok [record] ∧ record.uri = source.uri ∧
    record.start = token.pos ∧ record.position = source.position token.pos
  /-- A formatter that has not reached its limit writes a report, with or without colors. The
  position stands behind the arrow. -/
  report : ∀ mode terminal maxErrors, 1 ≤ maxErrors →
    ∃ rest next, Formatter.format terminal refusal.diagnostic (.fresh mode maxErrors) =
      .ok (Styled.render (mode.usesColors terminal) [refusal.diagnostic.header] ++ "\n" ++
        Styled.render (mode.usesColors terminal)
          [Style.brightBlue.paint s!"  --> {source.uri}:{source.position token.pos}"] ++ "\n" ++
        rest) next
  /-- The message names the line, and the star stands in the column. -/
  message : refusal.message = refusal.diagnostic.message ++
    s!"\nin {source.uri}, line {(source.position token.pos).line}\n" ++
    String.ofList (source.lineText token.pos) ++ "\n" ++
    String.ofList (List.replicate ((source.position token.pos).column - 1) ' ') ++ "*"

/-- A refusal about one token points at this token. -/
theorem CompileError.pointsAt_ofWording (stage : Stage) (wording : Wording)
    (placed : PlacedToken) :
    (ofWording stage wording placed).PointsAt placed.source placed.token := by
  have hbounds := placed.span_inBounds
  have hpositions := placed.span_positions
  have hlabels : (ofWording stage wording placed).diagnostic.labels =
      [⟨placed.span, some wording.label, true⟩] := rfl
  refine ⟨⟨placed, rfl, rfl, rfl⟩, ⟨_, hlabels, rfl, rfl, rfl, hbounds.1,
    placed.span.start_le_stop, hbounds.2, placed.pos_eq_of_span_empty⟩, ?record, ?report, ?message⟩
  case record => exact ⟨_, Diagnostic.records_single hlabels hpositions, rfl, rfl, rfl⟩
  case report =>
    intro mode terminal maxErrors hmax
    obtain ⟨frame, hreport⟩ := Diagnostic.report_single hlabels rfl hpositions
    obtain ⟨next, hformat⟩ := Formatter.format_fresh hreport mode terminal hmax
    rw [Styled.render_unlines_cons, Styled.render_unlines_cons, ← String.append_assoc,
      ← String.append_assoc] at hformat
    exact ⟨_, next, hformat⟩
  case message =>
    simp only [CompileError.message, ofWording, ofTokens, List.map_cons, List.map_nil,
      String.join_cons, String.join_nil, String.append_empty, PlacedToken.locationMessage,
      PlacedToken.position, PlacedToken.lineText, String.append_assoc]

/-- A token that a failure is about begins within the text. -/
theorem Failure.Arises.pos_le (harises : failure.Arises source.course)
    (htoken : failure.token? = some token) : token.pos ≤ source.length := by
  have hplace := Upcoming.pos_le_of_ofText 0 source.text
  rw [Nat.zero_add] at hplace
  cases harises with
  | lexical herror =>
      obtain rfl := Option.some.inj htoken
      exact hplace.2 _ herror
  | grammatical hfound =>
      obtain rfl := Option.some.inj htoken
      exact hplace.1 _ hfound
  | integerTooLong => cases htoken

theorem Source.Fails.arises (hfails : source.Fails failure) : failure.Arises source.course := by
  cases hfails with
  | tokens htokens => exact .lexical (TokenStream.tokens_eq_error_iff.mp htokens)
  | program hread => exact Program.arises_of_read_error hread
  | expression hread => exact Expr.arises_of_read_error hread

/-- An error about a token that begins within the text is reported in the words for its cause. -/
theorem GrammarError.report_of_pos_le {error : GrammarError}
    (hpos : error.token.pos ≤ source.length) :
    error.report source =
      .ok (.ofWording .parsing (error.cause.wording error.token) ⟨source, error.token, hpos⟩) := by
  rw [report, PlacedToken.place, dif_pos hpos]
  rfl

/-- A failure about a token that begins within the text is reported in the words for its cause. -/
theorem Failure.reported_of_pos_le (htoken : failure.token? = some token)
    (hpos : token.pos ≤ source.length) :
    ∃ stage wording, failure.Reported source (.ofWording stage wording ⟨source, token, hpos⟩) := by
  have hplace : PlacedToken.place source token = .ok ⟨source, token, hpos⟩ := dif_pos hpos
  cases failure with
  | lexical error =>
      obtain rfl := Option.some.inj htoken
      exact ⟨_, _, .lexical (by rw [LexicalError.report, hplace]; rfl)⟩
  | grammatical error =>
      obtain rfl := Option.some.inj htoken
      exact ⟨_, _, .grammatical (GrammarError.report_of_pos_le hpos)⟩
  | integerTooLong | noPrecedence => cases htoken

/-- **Every failure about a token can be reported, and all that reports it names the place of this
token.** -/
theorem Source.Fails.reported_at_token (hfails : source.Fails failure)
    (htoken : failure.token? = some token) :
    ∃ refusal, failure.Reported source refusal ∧ refusal.PointsAt source token := by
  have hpos := hfails.arises.pos_le htoken
  obtain ⟨stage, wording, hreported⟩ := Failure.reported_of_pos_le htoken hpos
  exact ⟨_, hreported, CompileError.pointsAt_ofWording stage wording ⟨source, token, hpos⟩⟩

/-- The text ends with a backslash, so the character behind it would stand past the end. -/
theorem Source.Fails.reported_at_end :
    let source := Source.ofString "demo" "a +\n 'b\\"
    let token : Token := ⟨.error, none, 8, 9⟩
    source.Fails (.lexical ⟨.unrecognizedEscape, token⟩) ∧ source.length = 8 ∧
      ∃ refusal, (Failure.lexical ⟨.unrecognizedEscape, token⟩).Reported source refusal ∧
        refusal.PointsAt source token := by
  intro source token
  have hfails : source.Fails (.lexical ⟨.unrecognizedEscape, token⟩) :=
    .tokens (by decide +kernel)
  exact ⟨hfails, rfl, Source.Fails.reported_at_token hfails rfl⟩

end ClassLang
