import ClassLang.Proofs.Report.Answer

/-! # Past the limit

A formatter that writes one diagnostic after the other writes reports as long as there are not too
many errors. From the first error that is one too many it writes nothing but notices, one for each
diagnostic, whatever its severity.
-/

namespace ClassLang

/-- How many of the diagnostics are errors. -/
def Diagnostic.errorCount (diagnostics : List Diagnostic) : Nat :=
  diagnostics.countP (·.severity = .error)

theorem Diagnostic.errorCount_append (front back : List Diagnostic) :
    errorCount (front ++ back) = errorCount front + errorCount back :=
  List.countP_append

theorem Diagnostic.errorCount_cons (diagnostic : Diagnostic) (diagnostics : List Diagnostic) :
    errorCount (diagnostic :: diagnostics) = errorCount [diagnostic] + errorCount diagnostics :=
  errorCount_append [diagnostic] diagnostics

namespace Formatter

/-- The response that writes the report of a diagnostic, or fails as the report does. -/
def reporting (mode : ColorMode) (terminal : Terminal) (diagnostic : Diagnostic) : Response :=
  .writing (Styled.render (mode.usesColors terminal) <$> diagnostic.report)

/-- The response that writes the notice. -/
def noticing (mode : ColorMode) (terminal : Terminal) : Response :=
  .writing (.ok (limitNotice.render (mode.usesColors terminal)))

/-- What comes of writing diagnostics one after the other. -/
def emitAll (formatter : Formatter) (terminal : Terminal) (diagnostics : List Diagnostic) :
    List Response :=
  (formatter.session (diagnostics.map (.emit · terminal))).map (·.response)

variable {formatter : Formatter} {terminal : Terminal} {diagnostic : Diagnostic}
  {diagnostics : List Diagnostic}

theorem emitAll_cons (formatter : Formatter) (terminal : Terminal) (diagnostic : Diagnostic)
    (diagnostics : List Diagnostic) :
    formatter.emitAll terminal (diagnostic :: diagnostics) =
      .writing (formatter.made diagnostic terminal) ::
        (count diagnostic.severity formatter).emitAll terminal diagnostics := by
  rw [emitAll, List.map_cons, session, exchange_emit, List.map_cons, emitAll]

theorem count_errors_eq (formatter : Formatter) (diagnostic : Diagnostic) :
    (count diagnostic.severity formatter).errors =
      formatter.errors + Diagnostic.errorCount [diagnostic] := by
  rw [count_errors, Diagnostic.errorCount, List.countP_singleton]
  simp

/-- Once there are too many errors nothing is written but notices. -/
theorem emitAll_of_exceeded
    (hmore : ∀ first ∈ diagnostics.head?,
      formatter.maxErrors < (count first.severity formatter).errors) :
    formatter.emitAll terminal diagnostics =
      diagnostics.map fun _ => noticing formatter.mode terminal := by
  induction diagnostics generalizing formatter with
  | nil => rfl
  | cons diagnostic diagnostics ih =>
      have hfirst := hmore diagnostic rfl
      have hrest : (count diagnostic.severity formatter).emitAll terminal diagnostics =
          diagnostics.map fun _ => noticing (count diagnostic.severity formatter).mode terminal :=
        ih fun next _ => by
          rw [count_maxErrors, count_errors_eq]
          omega
      rw [emitAll_cons, hrest, made, if_pos hfirst, count_mode]
      rfl

/-- The diagnostics divide into those that are reported and those that are not. The first of the
others is one error too many. -/
theorem emitAll_divides (formatter : Formatter) (terminal : Terminal)
    (diagnostics : List Diagnostic) :
    ∃ shown hidden, diagnostics = shown ++ hidden ∧
      (shown ≠ [] → formatter.errors + Diagnostic.errorCount shown ≤ formatter.maxErrors) ∧
      (∀ first ∈ hidden.head?,
        formatter.maxErrors < formatter.errors + Diagnostic.errorCount (shown ++ [first])) ∧
      formatter.emitAll terminal diagnostics =
        shown.map (reporting formatter.mode terminal) ++
          hidden.map fun _ => noticing formatter.mode terminal := by
  induction diagnostics generalizing formatter with
  | nil => exact ⟨[], [], rfl, by simp, by simp, rfl⟩
  | cons diagnostic diagnostics ih =>
      have hcount := count_errors_eq formatter diagnostic
      by_cases hmore : formatter.maxErrors < (count diagnostic.severity formatter).errors
      case pos =>
        have hfirst : ∀ first ∈ (diagnostic :: diagnostics).head?,
            formatter.maxErrors < (count first.severity formatter).errors := by
          rintro _ ⟨⟩
          exact hmore
        refine ⟨[], diagnostic :: diagnostics, rfl, by simp, fun first hhead => ?_,
          emitAll_of_exceeded hfirst⟩
        rw [List.nil_append, ← Int.natCast_add, ← count_errors_eq]
        exact hfirst first hhead
      case neg =>
        obtain ⟨shown, hidden, rfl, hfew, hfirst, hemit⟩ :=
          ih (count diagnostic.severity formatter)
        rw [count_maxErrors, hcount] at hfew hfirst
        refine ⟨diagnostic :: shown, hidden, rfl, fun _ => ?_, fun first hhead => ?_, ?_⟩
        · rw [Diagnostic.errorCount_cons]
          cases shown with
          | nil => simpa [Diagnostic.errorCount, hcount] using hmore
          | cons second more =>
              have hle := hfew (List.cons_ne_nil second more)
              omega
        · have hlt := hfirst first hhead
          rw [List.cons_append, Diagnostic.errorCount_cons]
          omega
        · rw [emitAll_cons, hemit, made, if_neg hmore, count_mode]
          rfl

/-- What is written for a report, even if it cannot be made, is not the notice. -/
theorem written_reporting_ne_notice (mode : ColorMode) (terminal : Terminal)
    (diagnostic : Diagnostic) :
    (reporting mode terminal diagnostic).written ≠
      limitNotice.render (mode.usesColors terminal) := by
  unfold reporting
  cases hreport : diagnostic.report with
  | ok styled => exact Diagnostic.render_report_ne_notice hreport _
  | error error =>
      have hnotice : ∀ colors, "" ≠ limitNotice.render colors := by decide
      exact hnotice _

/-- **Of diagnostics written one after the other a formatter reports those before the first error
that is one too many, and for each of the others, not only for the first, it writes the notice.** -/
theorem emitAll_reports_then_notices (mode : ColorMode) (maxErrors : Int) (terminal : Terminal)
    (diagnostics : List Diagnostic) :
    ∃ shown hidden, diagnostics = shown ++ hidden ∧
      Diagnostic.errorCount shown = min maxErrors.toNat (Diagnostic.errorCount diagnostics) ∧
      (∀ first ∈ hidden.head?, maxErrors < Diagnostic.errorCount (shown ++ [first])) ∧
      (fresh mode maxErrors).emitAll terminal diagnostics =
        shown.map (reporting mode terminal) ++ hidden.map (fun _ => noticing mode terminal) ∧
      ((fresh mode maxErrors).emitAll terminal diagnostics).countP
          (·.written = limitNotice.render (mode.usesColors terminal)) = hidden.length := by
  obtain ⟨shown, hidden, rfl, hfew, hfirst, hemit⟩ :=
    emitAll_divides (fresh mode maxErrors) terminal diagnostics
  have hmode : (fresh mode maxErrors).mode = mode := rfl
  rw [hmode] at hemit
  simp only [fresh, Int.natCast_zero, Int.zero_add] at hfew hfirst
  refine ⟨shown, hidden, rfl, ?number, hfirst, hemit, ?notices⟩
  case number =>
    have hle : Diagnostic.errorCount shown ≤ maxErrors.toNat := by
      cases shown with
      | nil => exact Nat.zero_le _
      | cons first more =>
          have hcap := hfew (List.cons_ne_nil first more)
          omega
    rw [Diagnostic.errorCount_append]
    cases hidden with
    | nil =>
        have hnone : Diagnostic.errorCount [] = 0 := rfl
        omega
    | cons first more =>
        have hlt := hfirst first rfl
        have hone : Diagnostic.errorCount [first] ≤ 1 := List.countP_le_length
        rw [Diagnostic.errorCount_append] at hlt
        omega
  case notices =>
    have hshown : (shown.map (reporting mode terminal)).countP
        (·.written = limitNotice.render (mode.usesColors terminal)) = 0 := by
      rw [List.countP_eq_zero, List.forall_mem_map]
      intro diagnostic _
      rw [decide_eq_true_eq]
      exact written_reporting_ne_notice mode terminal diagnostic
    have hhidden : (hidden.map fun _ => noticing mode terminal).countP
        (·.written = limitNotice.render (mode.usesColors terminal)) = hidden.length := by
      rw [← List.length_map (fun _ => noticing mode terminal), List.countP_eq_length,
        List.forall_mem_map]
      intro diagnostic _
      rw [decide_eq_true_eq]
      rfl
    rw [hemit, List.countP_append, hshown, hhidden, Nat.zero_add]

/-- One error may be shown and there are three, so the notice is written twice. -/
theorem emitAll_notice_twice :
    let diagnostic := Diagnostic.make "KAV2003" .error "Expected expression" [] [] none
    let written := ((fresh .never 1).emitAll ⟨false, false⟩
      [diagnostic, diagnostic, diagnostic]).map (·.written)
    written = ["Error [KAV2003]: Expected expression\n", "... (too many errors, stopping)\n",
      "... (too many errors, stopping)\n"] ∧
    ¬ written.count "... (too many errors, stopping)\n" ≤ 1 := by
  decide +kernel

end Formatter

end ClassLang
