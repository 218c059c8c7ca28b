import ClassLang.Source.Span

/-! # Diagnostics

A diagnostic is a coded message about labelled stretches of sources. When it
has labels, exactly one of them is primary: the place the message is about.
-/

namespace ClassLang

/-- How grave a message is. -/
inductive Severity where
  | error | warning | note | help
deriving DecidableEq, Repr

/-- The word for a severity in records. -/
def Severity.word : Severity → String
  | .error => "error"
  | .warning => "warning"
  | .note => "note"
  | .help => "help"

/-- The word for a severity at the head of a report. -/
def Severity.title : Severity → String
  | .error => "Error"
  | .warning => "Warning"
  | .note => "Note"
  | .help => "Help"

/-- A stretch of a source with a remark on it. -/
structure Label where
  span : Span
  text : Option String
  primary : Bool

namespace Label

/-- The label as a secondary one. -/
def secondary (label : Label) : Label := { label with primary := false }

/-- Of several labels that claim to be primary only the first keeps the claim. -/
def firstClaim : List Label → List Label
  | [] => []
  | label :: rest =>
      if label.primary then label :: rest.map secondary else label :: firstClaim rest

/-- The labels with one primary among them: the first that claims to be, else the first. -/
def withOnePrimary (labels : List Label) : List Label :=
  if labels.any (·.primary) then firstClaim labels
  else
    match labels with
    | [] => []
    | label :: rest => { label with primary := true } :: rest

end Label

/-- A coded message about stretches of sources. -/
structure Diagnostic where
  code : String
  severity : Severity
  message : String
  labels : List Label
  notes : List String
  help : Option String

/-- A label as others can record it: with the position where its span starts. -/
structure LabelRecord where
  uri : String
  start : Int
  stop : Int
  position : Position
  text : Option String
  primary : Bool
deriving DecidableEq, Repr

namespace Diagnostic

/-- The diagnostic with the given labels, one of them made primary. -/
def make (code : String) (severity : Severity) (message : String) (labels : List Label)
    (notes : List String) (help : Option String) : Diagnostic :=
  ⟨code, severity, message, Label.withOnePrimary labels, notes, help⟩

/-- The place the message is about. -/
def primarySpan? (diagnostic : Diagnostic) : Option Span :=
  (diagnostic.labels.find? (·.primary)).map (·.span)

/-- The record of a label; its whole span has to be within its source. -/
def record (label : Label) : Except RangeError LabelRecord := do
  let (start, _) ← label.span.positions
  return ⟨label.span.source.uri, label.span.start, label.span.stop, start, label.text,
    label.primary⟩

/-- The records of all labels, or the first range error among them. -/
def records (diagnostic : Diagnostic) : Except RangeError (List LabelRecord) :=
  diagnostic.labels.mapM record

end Diagnostic

end ClassLang
