import ClassLang.Text.Quoted

/-! # Styled text

Text for a terminal is a list of pieces, some of them painted. Rendered without
colors the pieces are their texts; rendered with colors each painted piece
stands between the code of its style and the code that ends all styles.
-/

namespace ClassLang

/-- The styles that a terminal knows. -/
inductive Style where
  | reset | bold | white | brightRed | brightYellow | brightBlue | brightCyan
deriving DecidableEq, Repr

namespace Style

/-- All styles. -/
def all : List Style := [.reset, .bold, .white, .brightRed, .brightYellow, .brightBlue, .brightCyan]

/-- What a style is called. -/
def name : Style → String
  | .reset => "reset"
  | .bold => "bold"
  | .white => "white"
  | .brightRed => "bright_red"
  | .brightYellow => "bright_yellow"
  | .brightBlue => "bright_blue"
  | .brightCyan => "bright_cyan"

/-- The number of a style in its code. -/
def number : Style → Nat
  | .reset => 0
  | .bold => 1
  | .white => 37
  | .brightRed => 91
  | .brightYellow => 93
  | .brightBlue => 94
  | .brightCyan => 96

/-- The code that begins a style: escape, bracket, number, `m`. -/
def code (style : Style) : String := s!"\x1b[{style.number}m"

/-- The style with the given name. -/
def ofName? (name : String) : Option Style := all.find? (·.name = name)

end Style

/-- A piece of styled text. -/
inductive Piece where
  | plain (text : String)
  /-- A piece in a style. A piece in no known style is only ended like one in a style. -/
  | painted (style : Option Style) (text : String)
deriving DecidableEq, Repr

/-- Text in pieces. -/
abbrev Styled := List Piece

/-- A piece in the given style. -/
def Style.paint (style : Style) (text : String) : Piece := .painted (some style) text

/-- The text of a piece with its codes, if there are to be colors. -/
def Piece.render (colors : Bool) : Piece → String
  | .plain text => text
  | .painted style text =>
      if colors then (style.map Style.code).getD "" ++ text ++ Style.reset.code else text

namespace Styled

/-- The text of all pieces with their codes, if there are to be colors. -/
def render (colors : Bool) (styled : Styled) : String := String.join (styled.map (·.render colors))

/-- The lines as one styled text. -/
def unlines (lines : List Styled) : Styled := [Piece.plain "\n"].intercalate lines

end Styled

/-- When a formatter uses colors. -/
inductive ColorMode where
  | never | always
  /-- On terminals, unless the environment asks for none. -/
  | auto
deriving DecidableEq, Repr

/-- What a formatter knows about the place it writes to. -/
structure Terminal where
  /-- The output is a terminal. -/
  interactive : Bool
  /-- The environment asks for output without colors. -/
  noColor : Bool
deriving DecidableEq, Repr

namespace ColorMode

/-- The word for a mode. -/
def word : ColorMode → String
  | .never => "never"
  | .always => "always"
  | .auto => "auto"

/-- The mode that a word stands for. -/
def ofWord? (word : String) : Option ColorMode := [never, always, auto].find? (·.word = word)

/-- What is said of a word that stands for no mode. -/
def unknownMessage (word : String) : String :=
  String.ofList (Text.quoted word.toList) ++ " is not a valid ColorMode"

/-- Whether output to a terminal is colored. -/
def usesColors (mode : ColorMode) (terminal : Terminal) : Bool :=
  match mode with
  | .never => false
  | .always => true
  | .auto => terminal.interactive && !terminal.noColor

end ColorMode

end ClassLang
