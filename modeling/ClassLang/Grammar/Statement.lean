import ClassLang.Grammar.Expression

/-! # The rules of statements

A statement is told by its first token. Bodies are always blocks. A statement
that begins with the name of a type is a declaration if a name follows, and
otherwise an expression that begins with a member of the type.
-/

namespace ClassLang.Level

open ClassLang.Parser

variable (level : Level) (enclosing : Option String)

/-- Statements between braces. -/
def block : Parser (Stmt Token) := do
  let token ← expectSymbol .braceOpen
  return .block token (← manyUntil (.symbol .braceClose) (level.read enclosing .statement))

/-- An expression, unless the next token has the kind that ends it. -/
def expressionUnless (close : Symbol) : Parser (Option (Expr Token)) := do
  if ← isAt (.symbol close) then return none
  else some <$> level.read enclosing (.expression none)

/-- An expression, if an equals sign stands before it. -/
def firstValue : Parser (Option (Expr Token)) := do
  if (← take? (.symbol .assign)).isSome then some <$> level.read enclosing (.expression none)
  else return none

/-- A statement, with the semicolon where one belongs to it. -/
def statement : Parser (Stmt Token) := do
  let token ← peek
  match token.kind with
  | .symbol .braceOpen => level.read enclosing .block
  | .keyword .if =>
      let _ ← advance
      level.read enclosing (.ifStatement token)
  | .keyword .while =>
      let _ ← advance
      let condition ← level.read enclosing .parenthesized
      return .whileLoop token condition (← level.read enclosing .block)
  | .keyword .for =>
      let _ ← advance
      level.read enclosing (.forStatement token)
  | .keyword .return =>
      let _ ← advance
      let value ← level.expressionUnless enclosing .semicolon
      let _ ← expectSymbol .semicolon
      return .returnValue token value
  | .keyword .break =>
      let _ ← advance
      let _ ← expectSymbol .semicolon
      return .breakLoop token
  | .keyword .continue =>
      let _ ← advance
      let _ ← expectSymbol .semicolon
      return .continueLoop token
  | _ =>
      let simple ← level.read enclosing .simpleStatement
      let _ ← expectSymbol .semicolon
      return simple

/-- A declaration or an expression. -/
def simpleStatement : Parser (Stmt Token) := do
  let token ← peek
  match token.kind with
  | .keyword .var =>
      let _ ← advance
      level.read enclosing (.declaration token "var")
  | .typename =>
      let _ ← advance
      if ← isAt .name then level.read enclosing (.declaration token token.payload)
      else
        let member ← level.read enclosing (.staticMember token)
        let left ← level.read enclosing (.suffixed (some member))
        return .expression token (← level.read enclosing (.expression (some left)))
  | _ => return .expression token (← level.read enclosing (.expression none))

/-- A declared name and perhaps its first value. -/
def declaration (token : Token) (type : String) : Parser (Stmt Token) := do
  let name ← expectName
  return .declaration token type name (← level.firstValue enclosing)

/-- A condition, a body, and after `else` a block or another `if`. -/
def ifStatement (token : Token) : Parser (Stmt Token) := do
  let condition ← level.read enclosing .parenthesized
  let body ← level.read enclosing .block
  if (← take? (.keyword .else)).isNone then return .ifElse token condition body none
  let next ← peek
  if (← take? (.keyword .if)).isSome then
    return .ifElse token condition body (some (← level.read enclosing (.ifStatement next)))
  else return .ifElse token condition body (some (← level.read enclosing .block))

/-- Three optional parts between parentheses, and a body. -/
def forStatement (token : Token) : Parser (Stmt Token) := do
  let _ ← expectSymbol .parenOpen
  let first ←
    if ← isAt (.symbol .semicolon) then pure none
    else some <$> level.read enclosing .simpleStatement
  let _ ← expectSymbol .semicolon
  let condition ← level.expressionUnless enclosing .semicolon
  let _ ← expectSymbol .semicolon
  let step ← level.expressionUnless enclosing .parenClose
  let _ ← expectSymbol .parenClose
  return .forLoop token first condition step (← level.read enclosing .block)

end ClassLang.Level
