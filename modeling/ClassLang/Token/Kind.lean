import ClassLang.Token.Keyword
import ClassLang.Token.Symbol

/-! # Kinds of tokens

The kind of a keyword or symbol is the keyword or symbol itself. Each kind has
one spelling, which messages use; a spelling that belongs to none of the known
kinds is a kind of its own.
-/

namespace ClassLang

/-- What sort of token stands at a place. -/
inductive Kind where
  /-- The end of the text. -/
  | endOfText
  /-- A stretch of text that is no token. -/
  | error
  | string
  | int
  | float
  | name
  | typename
  | keyword (keyword : Keyword)
  | symbol (symbol : Symbol)
  /-- A kind that no text yields. -/
  | other (spelling : String)
deriving DecidableEq, Repr

namespace Kind

/-- How messages call a kind. -/
def spelling : Kind → String
  | .endOfText => "EOF"
  | .error => "ERROR"
  | .string => "STRING"
  | .int => "INT"
  | .float => "FLOAT"
  | .name => "NAME"
  | .typename => "TYPENAME"
  | .keyword k => k.spelling
  | .symbol s => s.spelling
  | .other text => text

/-- The kinds that are neither keywords nor symbols and can stand in a text. -/
def classes : List Kind := [.endOfText, .error, .string, .int, .float, .name, .typename]

/-- The kind that messages call by the given spelling. -/
def ofSpelling (spelling : String) : Kind :=
  match classes.find? (·.spelling = spelling) with
  | some kind => kind
  | none =>
      match Keyword.ofSpelling? spelling, Symbol.ofSpelling? spelling with
      | some k, _ => .keyword k
      | none, some s => .symbol s
      | none, none => .other spelling

end Kind

end ClassLang
