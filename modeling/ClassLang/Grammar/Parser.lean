import ClassLang.Grammar.Failure

/-! # Parsers

A parser reads a value from the front of a token stream or fails. It decides by
the buffered token alone. A failure keeps the stream as it was when the failure
arose, so that reading can be taken up again.
-/

namespace ClassLang

/-- A reader of a value from a token stream. -/
abbrev Parser := EStateM Failure TokenStream

namespace Parser

variable {α : Type}

/-- The token that comes next. -/
def peek : Parser Token := fun stream => .ok stream.buffered stream

/-- Take the token that comes next. -/
def advance : Parser Token := TokenStream.advance.adaptExcept Failure.lexical

/-- Fail about a token. -/
def refuse (cause : GrammarCause) (token : Token) : Parser α := throw (.grammatical ⟨cause, token⟩)

/-- Whether the next token has the given kind. -/
def isAt (kind : Kind) : Parser Bool := return (← peek).kind = kind

/-- Whether the next token is the given word, which is a name like any other elsewhere. -/
def isAtWord (word : String) : Parser Bool := do
  let token ← peek
  return token.kind = .name ∧ token.data = some word

/-- Take the next token if it has the given kind. -/
def take? (kind : Kind) : Parser (Option Token) := do
  if ← isAt kind then some <$> advance else return none

/-- Take the next token if it is the given word. -/
def takeWord? (word : String) : Parser (Option Token) := do
  if ← isAtWord word then some <$> advance else return none

/-- Take the next token if it has one of the given kinds. -/
def takeAny? (kinds : List Kind) : Parser (Option Token) := do
  if (← peek).kind ∈ kinds then some <$> advance else return none

/-- Take the next token if it is one of the given symbols. -/
def takeSymbol? (symbols : List Symbol) : Parser (Option (Token × Symbol)) := do
  match (← peek).kind with
  | .symbol symbol =>
      if symbol ∈ symbols then return some (← advance, symbol) else return none
  | _ => return none

/-- Take the next token, which has to have the given kind. -/
def expect (kind : Kind) : Parser Token := do
  if ← isAt kind then advance else refuse (.expectedToken kind) (← peek)

/-- Take the next token, which has to be a symbol. -/
def expectSymbol (symbol : Symbol) : Parser Token := expect (.symbol symbol)

/-- Take the name that has to come next. -/
def expectName : Parser String := Token.payload <$> expect .name

/-- Take the name of a type that has to come next. -/
def expectTypename : Parser String := Token.payload <$> expect .typename

/-- Read values for as long as `step` yields one. A step that takes no token is the last. -/
def many (step : Parser (Option α)) : Parser (List α) := fun stream =>
  match step stream with
  | .error failure next => .error failure next
  | .ok none next => .ok [] next
  | .ok (some value) next =>
      if _hprogress : next.remaining < stream.remaining then
        match many step next with
        | .error failure last => .error failure last
        | .ok values last => .ok (value :: values) last
      else .ok [value] next
termination_by stream => stream.remaining

/-- Extend a value for as long as `step` yields an extension. A step that takes no token is
the last. -/
def iterate (step : α → Parser (Option α)) (value : α) : Parser α := fun stream =>
  match step value stream with
  | .error failure next => .error failure next
  | .ok none next => .ok value next
  | .ok (some extended) next =>
      if _hprogress : next.remaining < stream.remaining then iterate step extended next
      else .ok extended next
termination_by stream => stream.remaining

/-- Read items up to and with the closing token of the given kind. -/
def manyUntil (close : Kind) (item : Parser α) : Parser (List α) :=
  many do if (← take? close).isSome then return none else some <$> item

/-- Read at least one item, with commas between. -/
def commaSeparated (item : Parser α) : Parser (List α) := do
  let first ← item
  let rest ← many do if (← take? (.symbol .comma)).isSome then some <$> item else return none
  return first :: rest

/-- Read items in parentheses, with commas between. -/
def parenthesizedList (item : Parser α) : Parser (List α) := do
  let _ ← expectSymbol .parenOpen
  if (← take? (.symbol .parenClose)).isSome then return []
  let items ← commaSeparated item
  let _ ← expectSymbol .parenClose
  return items

end Parser

end ClassLang
