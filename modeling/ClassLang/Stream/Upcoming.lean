import ClassLang.Scan.Basic
import ClassLang.Token.Basic

/-! # What a text has in store

Scanning a text step by step to its end gives tokens and, between them,
failures after which scanning can go on. The whole course is a value, so that a
reader of tokens depends on this course alone and not on the text.
-/

namespace ClassLang

/-- What can be wrong with a text where a token is looked for. -/
inductive LexicalCause where
  | unterminatedComment
  | unrecognizedEscape
  | unrecognizedToken
  | unterminatedString
deriving DecidableEq, Repr

/-- A failure to find a token, and the stretch of text it is about. -/
structure LexicalError where
  cause : LexicalCause
  token : Token
deriving DecidableEq, Repr

/-- The stretch of text from `start` up to `stop` that a failure is about. -/
def LexicalError.about (cause : LexicalCause) (start stop : Nat) : LexicalError :=
  ⟨cause, ⟨.error, none, start, stop⟩⟩

/-- What scanning from a place onwards yields. -/
inductive Upcoming where
  /-- Only the end of the text is left, at `offset`. -/
  | endOfText (offset : Nat)
  /-- A token comes next. -/
  | token (token : Token) (next : Upcoming)
  /-- The next scan fails and stops at `offset`, from where scanning can go on. -/
  | failure (error : LexicalError) (offset : Nat) (next : Upcoming)
  /-- The next scan fails at `offset` and takes nothing, so it will fail for ever. -/
  | stuck (error : LexicalError) (offset : Nat)
deriving DecidableEq, Repr

/-- The token that marks the end of a text. -/
def Token.endOfText (offset : Nat) : Token := ⟨.endOfText, none, offset, offset⟩

namespace Upcoming

/-- The course of scanning a text that begins at an offset of its source. -/
def ofText (offset : Nat) (text : List Char) : Upcoming :=
  match hscan : Scan.read text with
  | .lexeme skipped found rest =>
      let start := offset + skipped.length
      let stop := start + found.text.length
      token ⟨found.kind, found.data, start, stop⟩ (ofText stop rest)
  | .endOfText skipped => endOfText (offset + skipped.length)
  | .openComment skipped comment =>
      let start := offset + skipped.length
      let stop := start + comment.length
      failure (.about .unterminatedComment start (start + 2)) stop (endOfText stop)
  | .openString skipped literal =>
      let start := offset + skipped.length
      let stop := start + literal.length
      failure (.about .unterminatedString start stop) stop (endOfText stop)
  | .badEscape skipped literal rest =>
      let stop := offset + skipped.length + literal.length
      failure (.about .unrecognizedEscape stop (stop + 1)) stop (ofText stop rest)
  | .noToken skipped _ =>
      let start := offset + skipped.length
      stuck (.about .unrecognizedToken start (start + 1)) start
termination_by text.length
decreasing_by
  all_goals
    have hlength := congrArg List.length (Scan.text_read text)
    have hprogress := Scan.progresses_read text
    simp only [hscan, Scan.text, Scan.Progresses, List.length_append] at hlength hprogress
    have := List.length_pos_iff.mpr hprogress
    omega

/-- The number of tokens ahead, the end of the text not counted. -/
def length : Upcoming → Nat
  | endOfText _ => 0
  | token _ next => next.length + 1
  | failure _ _ next => next.length
  | stuck _ _ => 0

end Upcoming

end ClassLang
