import ClassLang.Grammar.Declaration

/-! # Reading texts

A text is read by the rules of the grammar, nested no deeper than a limit. The
limit counts the rules that are in progress at once; taking and looking at
tokens does not count. A second limit bounds the digits of integer literals.
-/

namespace ClassLang

namespace Level

/-- What a rule says, relative to the rules one level further in. -/
def apply (level : Level) (enclosing : Option String) {α : Type} : Rule α → Parser α
  | .expression left => level.read enclosing (.assignment left)
  | .assignment left => level.assignment enclosing left
  | .conditional left => level.conditional enclosing left
  | .binary least left => level.binary enclosing least left
  | .unary => level.unary enclosing
  | .suffixed primary => level.suffixed enclosing primary
  | .memberAccess owner => Parser.iterate (level.accessMember enclosing) owner
  | .staticMember owner => level.staticMember enclosing owner
  | .primary => level.primary enclosing
  | .expressionList => Parser.parenthesizedList (level.read enclosing (.expression none))
  | .parenthesized => level.parenthesized enclosing
  | .block => level.block enclosing
  | .statement => level.statement enclosing
  | .simpleStatement => level.simpleStatement enclosing
  | .declaration token type => level.declaration enclosing token type
  | .ifStatement token => level.ifStatement enclosing token
  | .forStatement token => level.forStatement enclosing token
  | .typeList => Parser.commaSeparated Parser.expectTypename
  | .argument => argument
  | .argumentList => Parser.parenthesizedList (level.read enclosing .argument)
  | .methodStub => level.methodStub enclosing
  | .member => level.member enclosing
  | .classDeclaration token access => level.classDeclaration enclosing token access
  | .interfaceDeclaration token access => level.interfaceDeclaration enclosing token access
  | .module => level.module enclosing

/-- The rules that may nest to the given depth, integer literals bounded as given. -/
def bounded (integerDigits : Option Nat) : (depth : Nat) → Level
  | 0 => ⟨integerDigits, fun _ _ => do Parser.refuse .nestingTooDeep (← Parser.peek)⟩
  | depth + 1 =>
      ⟨integerDigits, fun enclosing rule => (bounded integerDigits depth).apply enclosing rule⟩

/-- The rules that may nest to the given depth. -/
def ofDepth (depth : Nat) : Level := bounded (some Failure.integerDigits) depth

end Level

/-- The depth to which rules may nest. -/
def nestingLimit : Nat := 980

/-- Run a parser on a source from its beginning. -/
def Parser.run {α : Type} (parser : Parser α) (source : Source) : Except Failure α :=
  match TokenStream.ofSource source with
  | .error error => .error (.lexical error)
  | .ok stream =>
      match parser stream with
      | .ok value _ => .ok value
      | .error failure _ => .error failure

/-- Read a text of classes and interfaces, rules nested to the given depth. -/
def Program.readWithin (depth : Nat) (source : Source) : Except Failure (Program Token) :=
  ((Level.ofDepth depth).read none .module).run source

/-- An expression outside any class, and then the end of the text. -/
def Level.wholeExpression (level : Level) : Parser (Expr Token) := do
  let expression ← level.read none (.expression none)
  let _ ← Parser.expect .endOfText
  return expression

/-- Read a text that is one expression outside any class, rules nested to the given depth. -/
def Expr.readWithin (depth : Nat) (source : Source) : Except Failure (Expr Token) :=
  (Level.ofDepth depth).wholeExpression.run source

/-- Read a text of classes and interfaces. -/
def Program.read (source : Source) : Except Failure (Program Token) :=
  Program.readWithin nestingLimit source

/-- Read a text that is one expression outside any class. -/
def Expr.read (source : Source) : Except Failure (Expr Token) :=
  Expr.readWithin nestingLimit source

end ClassLang
