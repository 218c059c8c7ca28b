import ClassLang.Stream.Basic

/-! # Why reading a program fails

A failure is lexical, grammatical, an integer literal with too many digits or a
token taken for a binary operator that is none. Here a failure is its cause and
place; what is said about it is the concern of `ClassLang.Report.Wording`.
-/

namespace ClassLang

/-- How a sequence of tokens departs from the grammar. -/
inductive GrammarCause where
  | expectedToken (expected : Kind)
  | expectedDeclaration
  | expectedExpression
  | privateInterfaceMethod
  | invalidAssignmentTarget
  | nestingTooDeep
deriving DecidableEq, Repr

/-- A departure from the grammar, and the token it is about. -/
structure GrammarError where
  cause : GrammarCause
  token : Token
deriving DecidableEq, Repr

/-- Why reading a program fails. -/
inductive Failure where
  | lexical (error : LexicalError)
  | grammatical (error : GrammarError)
  /-- An integer literal has more than `Failure.integerDigits` digits. -/
  | integerTooLong (digits : Nat)
  /-- Tokens of this kind have no precedence as binary operators. -/
  | noPrecedence (kind : Kind)
deriving DecidableEq, Repr

/-- The greatest number of digits that an integer literal may have. -/
def Failure.integerDigits : Nat := 4300

end ClassLang
