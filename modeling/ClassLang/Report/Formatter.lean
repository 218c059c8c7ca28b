import ClassLang.Report.Frame

/-! # Reports

A formatter turns diagnostics into reports and keeps count of them. Once more
errors have been counted than it may show, it answers every diagnostic with a
notice instead. A diagnostic is counted before anything about it can fail.
-/

namespace ClassLang

/-- The style of a severity. -/
def Severity.style : Severity → Style
  | .error => .brightRed
  | .warning => .brightYellow
  | .note => .brightBlue
  | .help => .brightCyan

namespace Diagnostic

/-- The first line of a report. -/
def header (diagnostic : Diagnostic) : Piece :=
  diagnostic.severity.style.paint
    s!"{diagnostic.severity.title} [{diagnostic.code}]: {diagnostic.message}"

/-- The place of the diagnostic and the frame around it, if it has a primary label. -/
def place (diagnostic : Diagnostic) : Except RangeError (List Styled) :=
  match diagnostic.primarySpan? with
  | none => return []
  | some span => do
      let (start, _) ← span.positions
      let frame ← diagnostic.frame span.source
      return [Style.brightBlue.paint s!"  --> {span.source.uri}:{start}"] ::
        [Style.brightBlue.paint "   |"] :: frame

/-- The hint, if there is one that says anything, and the notes. -/
def remarks (diagnostic : Diagnostic) : List Styled :=
  ((diagnostic.help.filter (· ≠ "")).toList.map fun help =>
    [Style.brightCyan.paint s!"   = help: {help}"]) ++
  diagnostic.notes.map fun note => [Style.brightBlue.paint s!"   = note: {note}"]

/-- The whole report, each of its lines ended. -/
def report (diagnostic : Diagnostic) : Except RangeError Styled := do
  let place ← diagnostic.place
  return Styled.unlines ([diagnostic.header] :: place ++ diagnostic.remarks ++ [[]])

end Diagnostic

/-- How reports are written, and how many diagnostics have been counted so far. -/
structure Formatter where
  mode : ColorMode
  /-- The greatest number of errors for which reports are shown. -/
  maxErrors : Int
  errors : Nat
  warnings : Nat
deriving DecidableEq, Repr

/-- What can be asked of a formatter, which may refuse and still have counted. -/
abbrev Formatting := EStateM RangeError Formatter

namespace Formatter

/-- A formatter that has counted nothing yet. -/
def fresh (mode : ColorMode) (maxErrors : Int) : Formatter := ⟨mode, maxErrors, 0, 0⟩

/-- The formatter that is used unless another is asked for. -/
def standard : Formatter := fresh .auto 20

/-- The formatter after a diagnostic of the given severity has been counted. -/
def count (severity : Severity) (formatter : Formatter) : Formatter :=
  match severity with
  | .error => { formatter with errors := formatter.errors + 1 }
  | .warning => { formatter with warnings := formatter.warnings + 1 }
  | .note | .help => formatter

/-- The text of something styled on a terminal. -/
def render (formatter : Formatter) (terminal : Terminal) (styled : Styled) : String :=
  styled.render (formatter.mode.usesColors terminal)

/-- The text in the named style, if the terminal has colors. -/
def colorize (formatter : Formatter) (terminal : Terminal) (text style : String) : String :=
  formatter.render terminal [.painted (Style.ofName? style) text]

/-- What stands for the diagnostics past the limit. -/
def limitNotice : Styled := [Style.brightRed.paint "... (too many errors, stopping)\n"]

/-- The report of a diagnostic, or the notice once there are too many errors. -/
def format (terminal : Terminal) (diagnostic : Diagnostic) : Formatting String := do
  modify (count diagnostic.severity)
  let formatter ← get
  if formatter.maxErrors < formatter.errors then return formatter.render terminal limitNotice
  match diagnostic.report with
  | .ok styled => return formatter.render terminal styled
  | .error error => throw error

/-- A number of things, with the plural where it belongs. -/
def counted (number : Nat) (thing : String) : String :=
  s!"{number} {thing}" ++ if number = 1 then "" else "s"

/-- The counts that are not zero, or nothing if both are. -/
def summary (formatter : Formatter) : Styled :=
  let errors :=
    if formatter.errors = 0 then []
    else [[Style.brightRed.paint (counted formatter.errors "error")]]
  let warnings :=
    if formatter.warnings = 0 then []
    else [[Style.brightYellow.paint (counted formatter.warnings "warning")]]
  let parts := errors ++ warnings
  if parts.isEmpty then []
  else .plain "\n" :: [Piece.plain ", "].intercalate parts ++ [.plain " generated\n"]

end Formatter

end ClassLang
