import ClassLang.Grammar.Rule

/-! # The rules of expressions

From loosest to tightest: assignment, choice, binary operators, operators
before an operand, operators and members after it, primary expressions.
Assignments and choices group to the right, binary operators to the left.
-/

namespace ClassLang

/-- The binary operator that a token is, with its precedence. -/
def Token.binary? (token : Token) : Option (Symbol × Nat) :=
  match token.kind with
  | .symbol symbol => symbol.precedence?.map (symbol, ·)
  | _ => none

/-- How tightly a token binds its operands as a binary operator, zero if it is none. -/
def Token.precedence (token : Token) : Nat := token.binary?.elim 0 Prod.snd

/-- The assignment of a value to a target. Only variables and fields can be assigned to. -/
def Expr.assigned? {ι : Type} (operator : Symbol) (target value : Expr ι) : Option (Expr ι) :=
  match target, operator with
  | .name tag n, .assign => some (.assign tag n value)
  | .get tag owner n, .assign => some (.set tag owner n value)
  | .getStatic tag type n, .assign => some (.setStatic tag type n value)
  | .name .., _ | .get .., _ | .getStatic .., _ =>
      some (.operator target.tag (.symbol operator) [target, value])
  | _, _ => none

namespace Level

open ClassLang.Parser

variable (level : Level) (enclosing : Option String)

/-- A choice, and if an assignment operator follows, the value to assign. Whether the target
can be assigned to is asked after the value has been read. -/
def assignment (left : Option (Expr Token)) : Parser (Expr Token) := do
  let target ← level.read enclosing (.conditional left)
  match ← takeSymbol? Symbol.assignments with
  | none => return target
  | some (token, operator) =>
      let value ← level.read enclosing (.assignment none)
      match target.assigned? operator value with
      | some expression => return expression
      | none => refuse .invalidAssignmentTarget token

/-- An operand of a choice, and if a question mark follows, the two cases. -/
def conditional (left : Option (Expr Token)) : Parser (Expr Token) := do
  let condition ← level.read enclosing (.binary 1 left)
  if (← take? (.symbol .question)).isNone then return condition
  let holds ← level.read enclosing (.expression none)
  let _ ← expectSymbol .colon
  let fails ← level.read enclosing (.conditional none)
  return .operator condition.tag .conditional [condition, holds, fails]

/-- Join to the left operand the next operator of at least the given precedence and what it
takes as its right operand: operators that bind tighter. Where the precedence is zero every token
is taken for such an operator, and one that is none has no right operand. -/
def joinBinary (least : Nat) (left : Expr Token) : Parser (Option (Expr Token)) := do
  let token ← peek
  if token.precedence < least then return none
  let _ ← advance
  match token.binary? with
  | some (operator, precedence) =>
      let right ← level.read enclosing (.binary (precedence + 1) none)
      return some (.operator left.tag (.symbol operator) [left, right])
  | none => throw (.noPrecedence token.kind)

/-- Operands joined from left to right. -/
def binary (least : Nat) (left : Option (Expr Token)) : Parser (Expr Token) := do
  let first ← match left with
    | some operand => pure operand
    | none => level.read enclosing .unary
  iterate (level.joinBinary enclosing least) first

/-- Operators before an operand apply from the inside out. -/
def unary : Parser (Expr Token) := do
  match ← takeSymbol? Symbol.leading with
  | some (token, operator) =>
      let operand ← level.read enclosing .unary
      return .operator token (.symbol operator) [operand]
  | none => level.read enclosing (.suffixed none)

/-- Apply the operator after an operand, if there is one. -/
def applyTrailing (operand : Expr Token) : Parser (Option (Expr Token)) := do
  match ← takeSymbol? Symbol.trailing with
  | some (_, operator) => return some (.operator operand.tag (.symbol operator) [operand])
  | none => return none

/-- A primary expression with its members, then operators after it. -/
def suffixed (primary : Option (Expr Token)) : Parser (Expr Token) := do
  let first ← match primary with
    | some operand => pure operand
    | none => level.read enclosing .primary
  let operand ← level.read enclosing (.memberAccess first)
  iterate applyTrailing operand

/-- Take the next field or method of the owner, if a point follows. -/
def accessMember (owner : Expr Token) : Parser (Option (Expr Token)) := do
  match ← take? (.symbol .dot) with
  | none => return none
  | some token =>
      let name ← expectName
      if ← isAt (.symbol .parenOpen) then
        return some (.call token owner name (← level.read enclosing .expressionList))
      else return some (.get token owner name)

/-- A member of a type: a point, a name and, for a call, arguments. -/
def staticMember (owner : Token) : Parser (Expr Token) := do
  let _ ← expectSymbol .dot
  let name ← expectName
  if ← isAt (.symbol .parenOpen) then
    return .callStatic owner (some owner.payload) name (← level.read enclosing .expressionList)
  else return .getStatic owner owner.payload name

/-- The integer that a token writes. -/
def integer (token : Token) : Parser (Expr Token) :=
  let digits := token.payload.toList
  if level.integerDigits.any (· < digits.length) then throw (.integerTooLong digits.length)
  else return .int token (Decimal.digitsValue digits)

/-- A name that has been taken: an unqualified call, which is a call on the enclosing class, or
the name itself. -/
def callOrName (token : Token) : Parser (Expr Token) := do
  if ← isAt (.symbol .parenOpen) then
    return .callStatic token enclosing token.payload (← level.read enclosing .expressionList)
  else return .name token token.payload

/-- What begins with a name that has been taken. The name `new` before a type makes an object. -/
def named (token : Token) : Parser (Expr Token) := do
  if token.data = some "new" then
    if ← isAt .typename then
      let type ← expectTypename
      return .new token type (← level.read enclosing .expressionList)
    else level.callOrName enclosing token
  else level.callOrName enclosing token

/-- A primary expression is told by its first token. -/
def primary : Parser (Expr Token) := do
  let token ← peek
  match token.kind with
  | .keyword .this => let _ ← advance; return .this token
  | .keyword .true => let _ ← advance; return .bool token true
  | .keyword .false => let _ ← advance; return .bool token false
  | .keyword .null => let _ ← advance; return .null token
  | .int => let _ ← advance; level.integer token
  | .float => let _ ← advance; return .float token (.ofLiteral token.payload.toList)
  | .string => let _ ← advance; return .string token token.payload
  | .symbol .parenOpen =>
      let _ ← advance
      let expression ← level.read enclosing (.expression none)
      let _ ← expectSymbol .parenClose
      return expression
  | .typename => let _ ← advance; level.read enclosing (.staticMember token)
  | .name => let _ ← advance; level.named enclosing token
  | _ => refuse .expectedExpression token

/-- An expression between parentheses. -/
def parenthesized : Parser (Expr Token) := do
  let _ ← expectSymbol .parenOpen
  let expression ← level.read enclosing (.expression none)
  let _ ← expectSymbol .parenClose
  return expression

end Level

end ClassLang
