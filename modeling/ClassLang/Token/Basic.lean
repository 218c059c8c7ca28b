import ClassLang.Source.Span
import ClassLang.Token.Kind

/-! # Tokens

A token says what stands at an offset. By itself it does not know its source;
`PlacedToken` joins the two, and with it come line, span and the block that
shows the token in a message.
-/

namespace ClassLang

/-- What stands at an offset of some source. -/
structure Token where
  kind : Kind
  /-- The name, the digits or the decoded string, for the kinds that carry one. -/
  data : Option String
  pos : Nat
  /-- The offset just after the token. -/
  stop : Int
deriving DecidableEq, Repr

namespace Token

/-- The name, digits or string that a token carries, empty for one that carries none. -/
def payload (token : Token) : String := token.data.getD ""

/-- How messages show a token. -/
def describe (token : Token) : String :=
  match token.data with
  | some data => s!"Token({token.kind.spelling}, {data})"
  | none => s!"Token({token.kind.spelling})"

end Token

/-- A token together with the source it stands in. -/
structure PlacedToken where
  source : Source
  token : Token
  pos_le_length : token.pos ≤ source.length

namespace PlacedToken

/-- The token placed in a source, refused when it would begin outside the text. -/
def place (source : Source) (token : Token) : Except RangeError PlacedToken :=
  if h : token.pos ≤ source.length then .ok ⟨source, token, h⟩
  else .error (.token token.pos source.uri)

/-- A token from its parts. The offset may be anything; without a stop the token is empty. -/
def make (source : Source) (kind : Kind) (data : Option String) (pos : Int) (stop : Option Int) :
    Except RangeError PlacedToken :=
  if pos < 0 then .error (.token pos source.uri)
  else place source ⟨kind, data, pos.toNat, stop.getD pos⟩

variable (placed : PlacedToken)

/-- Where the token begins. -/
def position : Position := placed.source.position placed.token.pos

/-- The line the token begins on. -/
def lineText : List Char := placed.source.lineText placed.token.pos

/-- The stretch a report marks: the token, at least one character of it, within the text. -/
def span : Span where
  source := placed.source
  start := placed.token.pos
  stop := max (min (max placed.token.stop (placed.token.pos + 1)) placed.source.length)
    placed.token.pos
  start_le_stop := by omega

/-- The block that shows a token in a message: its source and line, the text of
the line, and a star under the first character. -/
def locationMessage : String :=
  s!"\nin {placed.source.uri}, line {placed.position.line}\n" ++
    String.ofList placed.lineText ++ "\n" ++
    String.ofList (List.replicate (placed.position.column - 1) ' ') ++ "*"

end PlacedToken

end ClassLang
