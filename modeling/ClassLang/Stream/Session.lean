import ClassLang.Stream.Basic

/-! # Sessions with a token stream

What can be asked of a token stream one call after another, and what each call returns and leaves
behind. A call that fails leaves a stream as well, and the next call goes on with it.
-/

namespace ClassLang.TokenStream

/-- A call of a token stream. -/
inductive Call where
  /-- Show the buffered token. -/
  | peek
  /-- Hand out the buffered token. -/
  | advance
  /-- Hand out all tokens that are left. -/
  | tokenize
deriving DecidableEq, Repr

/-- The tokens that are handed out. A token that is only shown is not among them. -/
def Call.handed : Call → Except LexicalError (List Token) → List Token
  | .peek, _ => []
  | _, .ok tokens => tokens
  | _, .error _ => []

/-- A call that has been made, with the stream before it and after it. -/
structure Turn where
  call : Call
  before : TokenStream
  /-- The tokens that the call returns, or why it fails. -/
  result : Except LexicalError (List Token)
  after : TokenStream

/-- The tokens that a turn hands out. -/
def Turn.handed (turn : Turn) : List Token := turn.call.handed turn.result

/-- Make a call. -/
def turn (stream : TokenStream) : Call → Turn
  | .peek => ⟨.peek, stream, .ok [stream.buffered], stream⟩
  | .advance =>
      match advance stream with
      | .ok token next => ⟨.advance, stream, .ok [token], next⟩
      | .error error next => ⟨.advance, stream, .error error, next⟩
  | .tokenize =>
      match tokenize stream with
      | .ok tokens next => ⟨.tokenize, stream, .ok tokens, next⟩
      | .error error next => ⟨.tokenize, stream, .error error, next⟩

/-- Make one call after the other, whether they fail or not. -/
def session (stream : TokenStream) : List Call → List Turn
  | [] => []
  | call :: calls =>
      let turn := stream.turn call
      turn :: session turn.after calls

/-- The tokens that are handed out one turn after the other. -/
def handed (turns : List Turn) : List Token := turns.flatMap (·.handed)

end ClassLang.TokenStream
