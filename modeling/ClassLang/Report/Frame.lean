import ClassLang.Report.Diagnostic
import ClassLang.Report.Style
import ClassLang.Text.Blank

/-! # Code frames

A code frame shows the lines of a source that some labels are about, with one
more line on either side. Under a line that a label touches stands a row of
marks: carets for the primary label and dashes for the others, each under the
character it marks. Later labels paint over earlier ones.
-/

namespace ClassLang

/-- A label with the positions of its first and last character. -/
structure LabelPlace where
  label : Label
  first : Position
  last : Position

namespace LabelPlace

/-- A label in place; its span has to be within its source. -/
def locate (label : Label) : Except RangeError LabelPlace := do
  let (first, last) ← label.span.positions
  return ⟨label, first, last⟩

/-- The label touches the line. -/
def onLine (place : LabelPlace) (line : Nat) : Bool :=
  place.first.line ≤ line && line ≤ place.last.line

/-- The label marks the cell of the given index, counted from zero, under a line of the given
width. Of a line without a marked character the first cell is marked. -/
def marks (place : LabelPlace) (line width cell : Nat) : Bool :=
  let start := if place.first.line = line then place.first.column - 1 else 0
  let stop := if place.last.line = line then place.last.column else width
  start ≤ cell && cell < max (start + 1) stop

/-- The mark of a label. -/
def mark (place : LabelPlace) : Char := if place.label.primary then '^' else '-'

/-- The remark of a label that starts on the line; an empty remark is none. -/
def remark? (place : LabelPlace) (line : Nat) : Option String :=
  if place.first.line = line then place.label.text.filter (· ≠ "") else none

end LabelPlace

namespace Frame

/-- The cell of a row of marks: the mark of the last label that marks it. -/
def cell (places : List LabelPlace) (line width index : Nat) : Char :=
  match (places.filter (·.marks line width index)).getLast? with
  | some place => place.mark
  | none => ' '

/-- The marks under a line: a cell for each character and one more, blanks at the end left out. -/
def markRow (places : List LabelPlace) (line width : Nat) : List Char :=
  Text.trimEnd ((List.range (width + 1)).map (cell places line width))

/-- A cell with the color of its mark. -/
def paintMark (mark : Char) : Piece :=
  if mark = '^' then Style.brightRed.paint "^"
  else if mark = '-' then Style.brightYellow.paint "-"
  else .plain (String.ofList [mark])

/-- The remark beside the marks: that of the primary label if it has one to make, else the
first. -/
def remark (places : List LabelPlace) (line : Nat) : Styled :=
  let speaking := places.filter fun place => (place.remark? line).isSome
  match (speaking.find? (·.label.primary)).or speaking.head? with
  | none => []
  | some place =>
      let style := if place.label.primary then Style.brightRed else Style.brightYellow
      [.plain " ", style.paint ((place.remark? line).getD "")]

/-- A text filled with spaces on the left. -/
def padLeft (width : Nat) (text : String) : String :=
  String.ofList (List.replicate (width - text.length) ' ') ++ text

/-- The bar between the line numbers and the text. -/
def bar : Piece := Style.brightBlue.paint "|"

/-- A line of the source behind its number, blanks at the end left out. -/
def contentRow (gutter line : Nat) (content : List Char) : Styled :=
  [Style.brightBlue.paint (padLeft gutter (toString line)), .plain " ", bar,
    .plain (String.ofList (Text.trimEnd (' ' :: content)))]

/-- The row of marks under a line of the given width, or nothing if there are none. -/
def underline (places : List LabelPlace) (gutter line width : Nat) : List Styled :=
  let marks := markRow places line width
  if marks.isEmpty then []
  else
    [[.plain (padLeft gutter ""), .plain " ", bar, .plain " "] ++ marks.map paintMark ++
      remark places line]

/-- The first and the last line that a frame around the given lines shows. -/
def bounds (lineCount : Nat) (lines : List Nat) : Nat × Nat :=
  (max 1 (lines.min?.getD 1 - 1), min lineCount (lines.max?.getD 1 + 1))

/-- The rows for the lines of a source around labels in it. -/
def rows (source : Source) (places : List LabelPlace) : List Styled :=
  let touched := places.flatMap fun place => [place.first.line, place.last.line]
  let (first, last) := bounds source.lineCount touched
  let gutter := (toString last).length
  let shown := (source.lines.zipIdx 1).filter fun (_, line) => first ≤ line && line ≤ last
  shown.flatMap fun (content, line) =>
    contentRow gutter line content ::
      underline (places.filter (·.onLine line)) gutter line content.length

end Frame

/-- The frame around the labels of a diagnostic that are in the given source. -/
def Diagnostic.frame (diagnostic : Diagnostic) (source : Source) :
    Except RangeError (List Styled) := do
  let labels := diagnostic.labels.filter fun label => label.span.source = source
  let places ← labels.mapM LabelPlace.locate
  return if places.isEmpty then [] else Frame.rows source places

end ClassLang
