import ClassLang.Report.Session

/-! # What a formatter makes of a diagnostic

A formatter counts a diagnostic first. Then it makes a notice of it if there are too many errors,
and else a report, which may fail. A report is never mistaken for the notice. What a formatter
makes is returned or written, and nothing is written where it fails.
-/

namespace ClassLang

/-- What succeeds in two steps succeeds in each. -/
theorem exists_of_bind_eq_ok {ε α β : Type} {first : Except ε α} {second : α → Except ε β}
    {result : β} (hbind : first >>= second = .ok result) :
    ∃ between, first = .ok between ∧ second between = .ok result := by
  cases first with
  | error error => cases hbind
  | ok between => exact ⟨between, rfl, hbind⟩

/-! ## Lines of a report -/

namespace Styled

variable {colors : Bool}

theorem render_append (front back : Styled) :
    render colors (front ++ back) = render colors front ++ render colors back := by
  rw [render, List.map_append, String.join_append]
  rfl

theorem render_unlines_cons (first second : Styled) (more : List Styled) :
    render colors (unlines (first :: second :: more)) =
      render colors first ++ "\n" ++ render colors (unlines (second :: more)) := by
  rw [unlines, List.intercalate_cons_cons, render_append, render_append, unlines]
  rfl

end Styled

/-! ## Reports and the notice -/

namespace Severity

variable (severity : Severity)

theorem title_toList :
    ∃ letter rest, severity.title.toList = letter :: rest ∧ letter ≠ '.' := by
  cases severity <;> exact ⟨_, _, rfl, by decide⟩

theorem style_code_toList :
    ∃ digit, severity.style.code.toList = ['\x1b', '[', '9', digit, 'm'] := by
  cases severity <;> exact ⟨_, by rfl⟩

end Severity

namespace Diagnostic

variable {diagnostic : Diagnostic} {styled : Styled}

theorem lines_of_report (hreport : diagnostic.report = .ok styled) :
    ∃ place, diagnostic.place = .ok place ∧
      styled = Styled.unlines ([diagnostic.header] :: (place ++ (diagnostic.remarks ++ [[]]))) := by
  unfold report at hreport
  obtain ⟨place, hplace, hlines⟩ := exists_of_bind_eq_ok hreport
  refine ⟨place, hplace, ?_⟩
  rw [← Except.ok.inj hlines, List.append_assoc, List.cons_append]

/-- The first line of a report is its header. -/
theorem render_report (hreport : diagnostic.report = .ok styled) (colors : Bool) :
    ∃ rest, styled.render colors =
      Styled.render colors [diagnostic.header] ++ "\n" ++ rest := by
  obtain ⟨place, -, rfl⟩ := lines_of_report hreport
  obtain ⟨second, more, hmore⟩ := List.exists_cons_of_ne_nil
    (show place ++ (diagnostic.remarks ++ [[]]) ≠ [] by simp)
  rw [hmore, Styled.render_unlines_cons]
  exact ⟨_, rfl⟩

/-- No report is the notice: behind the code, if there is one, it begins with a letter and not
with a point. -/
theorem render_report_ne_notice (hreport : diagnostic.report = .ok styled) (colors : Bool) :
    styled.render colors ≠ Styled.render colors Formatter.limitNotice := by
  obtain ⟨rest, hrest⟩ := render_report hreport colors
  obtain ⟨letter, title, htitle, hletter⟩ := diagnostic.severity.title_toList
  obtain ⟨digit, hcode⟩ := diagnostic.severity.style_code_toList
  have hnotice : Style.brightRed.code.toList = ['\x1b', '[', '9', '1', 'm'] := by rfl
  rw [hrest]
  intro heq
  have hlist := congrArg String.toList heq
  cases colors <;>
    simp [Styled.render, header, Formatter.limitNotice, Piece.render, Style.paint, toString,
      htitle, hletter, hcode, hnotice] at hlist

end Diagnostic

/-! ## Counting and answering -/

/-- The response that returns what was made. -/
def Response.returning (made : Except RangeError String) : Response := ⟨made, ""⟩

/-- The response that writes what was made. -/
def Response.writing : Except RangeError String → Response
  | .ok text => ⟨.ok "", text⟩
  | .error error => ⟨.error error, ""⟩

namespace Formatter

variable (formatter : Formatter) (diagnostic : Diagnostic) (terminal : Terminal)

section Count

variable (severity : Severity)

theorem count_eq :
    count severity formatter =
      ⟨formatter.mode, formatter.maxErrors,
        formatter.errors + if severity = .error then 1 else 0,
        formatter.warnings + if severity = .warning then 1 else 0⟩ := by
  cases severity <;> rfl

@[simp] theorem count_mode : (count severity formatter).mode = formatter.mode := by
  rw [count_eq]

@[simp] theorem count_maxErrors : (count severity formatter).maxErrors = formatter.maxErrors := by
  rw [count_eq]

@[simp] theorem count_errors :
    (count severity formatter).errors = formatter.errors + if severity = .error then 1 else 0 := by
  rw [count_eq]

@[simp] theorem count_render (styled : Styled) :
    (count severity formatter).render terminal styled = formatter.render terminal styled := by
  rw [render, count_mode, render]

end Count

/-- What a formatter makes of a diagnostic, which counts already. -/
def made : Except RangeError String :=
  if formatter.maxErrors < (count diagnostic.severity formatter).errors then
    .ok (formatter.render terminal limitNotice)
  else formatter.render terminal <$> diagnostic.report

/-- A formatter counts before it makes anything. -/
theorem format_eq :
    format terminal diagnostic formatter =
      match formatter.made diagnostic terminal with
      | .ok text => .ok text (count diagnostic.severity formatter)
      | .error error => .error error (count diagnostic.severity formatter) := by
  have hrender := fun styled => count_render formatter terminal diagnostic.severity styled
  change (ite ((count diagnostic.severity formatter).maxErrors < _) _ _ : Formatting String) _ = _
  rw [count_maxErrors, made]
  split
  case isTrue => rw [← hrender]; rfl
  case isFalse =>
    cases diagnostic.report with
    | ok styled => exact congrArg (EStateM.Result.ok · _) (hrender styled)
    | error error => rfl

theorem exchange_format :
    formatter.exchange (.format diagnostic terminal) =
      ⟨.format diagnostic terminal, formatter, .returning (formatter.made diagnostic terminal),
        count diagnostic.severity formatter⟩ := by
  simp only [exchange, answer, format_eq]
  cases formatter.made diagnostic terminal <;> rfl

theorem exchange_emit :
    formatter.exchange (.emit diagnostic terminal) =
      ⟨.emit diagnostic terminal, formatter, .writing (formatter.made diagnostic terminal),
        count diagnostic.severity formatter⟩ := by
  simp only [exchange, answer, format_eq]
  cases formatter.made diagnostic terminal <;> rfl

/-- What is made is the notice just when there are too many errors. -/
theorem made_eq_notice_iff :
    formatter.made diagnostic terminal = .ok (formatter.render terminal limitNotice) ↔
      formatter.maxErrors < (count diagnostic.severity formatter).errors := by
  unfold made
  split
  case isTrue hmore => exact ⟨fun _ => hmore, fun _ => rfl⟩
  case isFalse hfew =>
    refine ⟨fun hmade => ?_, fun hmore => absurd hmore hfew⟩
    cases hreport : diagnostic.report with
    | error error => simp [hreport, Functor.map, Except.map] at hmade
    | ok styled =>
        rw [hreport] at hmade
        exact absurd (Except.ok.inj hmade) (Diagnostic.render_report_ne_notice hreport _)

end Formatter

end ClassLang
