/-! # Source texts and positions

A source is a text with the name under which messages refer to it. Offsets
count characters from zero; positions count lines and columns from one, and
only a line feed ends a line.
-/

namespace ClassLang

/-- A named text. -/
structure Source where
  uri : String
  text : List Char
deriving DecidableEq, Repr

/-- A line and a column, both counted from one. -/
structure Position where
  line : Nat
  column : Nat
deriving DecidableEq, Repr

instance : ToString Position where
  toString p := s!"{p.line}:{p.column}"

/-- Why a place in a source is refused. -/
inductive RangeError where
  /-- An offset lies outside the text of the source named `uri`. -/
  | offset (offset : Int) (uri : String)
  /-- A token would begin outside the text of the source named `uri`. -/
  | token (offset : Int) (uri : String)
  /-- A span would end before it starts. -/
  | span (start stop : Int)
deriving DecidableEq, Repr

/-- The wording of a refusal. -/
def RangeError.message : RangeError → String
  | .offset place uri => s!"Offset {place} out of bounds for {uri}"
  | .token place uri => s!"Token offset {place} out of bounds for {uri}"
  | .span first last => s!"Invalid span: start ({first}) > end ({last})"

namespace Source

/-- The source with the given name and text. -/
def ofString (uri text : String) : Source := ⟨uri, text.toList⟩

/-- The number of characters. -/
def length (source : Source) : Nat := source.text.length

/-- The number of lines. A final line feed opens an empty last line. -/
def lineCount (source : Source) : Nat := source.text.count '\n' + 1

/-- The part of a text that stands after its last line feed. -/
def afterLastNewline (text : List Char) : List Char :=
  (text.reverse.takeWhile (· != '\n')).reverse

/-- The part of a text that stands before its first line feed. -/
def beforeNewline (text : List Char) : List Char :=
  text.takeWhile (· != '\n')

/-- The position of an offset within the text. -/
def position (source : Source) (offset : Nat) : Position :=
  let before := source.text.take offset
  ⟨before.count '\n' + 1, (afterLastNewline before).length + 1⟩

/-- The line that holds an offset, without its line feed. -/
def lineText (source : Source) (offset : Nat) : List Char :=
  afterLastNewline (source.text.take offset) ++ beforeNewline (source.text.drop offset)

/-- The offset as a place in the text; the end of the text counts as one. -/
def checkOffset (source : Source) (offset : Int) : Except RangeError Nat :=
  if offset < 0 ∨ (source.length : Int) < offset then .error (.offset offset source.uri)
  else .ok offset.toNat

/-- The position of any offset that is a place in the text. -/
def positionAt (source : Source) (offset : Int) : Except RangeError Position :=
  source.position <$> source.checkOffset offset

/-- The line around any offset that is a place in the text. -/
def lineTextAt (source : Source) (offset : Int) : Except RangeError (List Char) :=
  source.lineText <$> source.checkOffset offset

/-- A text with line feeds as the list of its lines. -/
def splitLines : List Char → List (List Char)
  | [] => [[]]
  | c :: rest =>
      if c = '\n' then [] :: splitLines rest
      else
        match splitLines rest with
        | [] => [[c]]
        | line :: lines => (c :: line) :: lines

/-- All lines of the source in order, without their line feeds. -/
def lines (source : Source) : List (List Char) := splitLines source.text

end Source

end ClassLang
