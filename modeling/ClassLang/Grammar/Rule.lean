import ClassLang.Grammar.Parser
import ClassLang.Tree.Declaration

/-! # Grammar rules

The rules of the grammar as a type: a rule of type `Rule α` describes texts
that are read as an `α`. Some rules are told what has been read before them.
What a rule says is given relative to the level of rules one further in, so
that the nesting of rules is bounded and can be counted.
-/

namespace ClassLang

/-- A field or a method. -/
inductive Member (ι : Type) where
  | field (field : Field ι)
  | method (method : Method ι)

/-- The field that a member is. -/
def Member.field? {ι : Type} : Member ι → Option (Field ι)
  | field f => some f
  | method _ => none

/-- The method that a member is. -/
def Member.method? {ι : Type} : Member ι → Option (Method ι)
  | field _ => none
  | method m => some m

/-- A class or an interface. -/
inductive TopLevel (ι : Type) where
  | classDecl (node : ClassDecl ι)
  | interfaceDecl (node : InterfaceDecl ι)

/-- The class that a top-level declaration is. -/
def TopLevel.classDecl? {ι : Type} : TopLevel ι → Option (ClassDecl ι)
  | classDecl c => some c
  | interfaceDecl _ => none

/-- The interface that a top-level declaration is. -/
def TopLevel.interfaceDecl? {ι : Type} : TopLevel ι → Option (InterfaceDecl ι)
  | classDecl _ => none
  | interfaceDecl i => some i

/-- The rules of the grammar. -/
inductive Rule : Type → Type where
  /-- An expression, whose first operand may have been read. -/
  | expression (left : Option (Expr Token)) : Rule (Expr Token)
  /-- A conditional expression, perhaps assigned to. -/
  | assignment (left : Option (Expr Token)) : Rule (Expr Token)
  /-- A choice between two expressions, or what may stand for its condition. -/
  | conditional (left : Option (Expr Token)) : Rule (Expr Token)
  /-- Operands joined by binary operators of at least the given precedence. -/
  | binary (least : Nat) (left : Option (Expr Token)) : Rule (Expr Token)
  /-- An operand with operators before it. -/
  | unary : Rule (Expr Token)
  /-- An operand with members and operators after it; its first part may have been read. -/
  | suffixed (primary : Option (Expr Token)) : Rule (Expr Token)
  /-- Members of what has been read. -/
  | memberAccess (owner : Expr Token) : Rule (Expr Token)
  /-- A member of a type that has been read. -/
  | staticMember (owner : Token) : Rule (Expr Token)
  /-- A literal, a name, a call, a new object or an expression in parentheses. -/
  | primary : Rule (Expr Token)
  /-- The arguments of a call. -/
  | expressionList : Rule (List (Expr Token))
  /-- An expression in parentheses. -/
  | parenthesized : Rule (Expr Token)
  /-- Statements in braces. -/
  | block : Rule (Stmt Token)
  | statement : Rule (Stmt Token)
  /-- A declaration or an expression as a statement, without the semicolon. -/
  | simpleStatement : Rule (Stmt Token)
  /-- A declaration whose type has been read. -/
  | declaration (token : Token) (type : String) : Rule (Stmt Token)
  /-- An `if` statement after the word. -/
  | ifStatement (token : Token) : Rule (Stmt Token)
  /-- A `for` statement after the word. -/
  | forStatement (token : Token) : Rule (Stmt Token)
  /-- The names of types, with commas between. -/
  | typeList : Rule (List String)
  | argument : Rule (Argument Token)
  /-- The arguments of a method in parentheses. -/
  | argumentList : Rule (List (Argument Token))
  /-- A method that an interface asks for. -/
  | methodStub : Rule (MethodStub Token)
  /-- A field or a method of a class. -/
  | member : Rule (Member Token)
  /-- A class after its access. -/
  | classDeclaration (token : Token) (access : Access) : Rule (ClassDecl Token)
  /-- An interface after its access. -/
  | interfaceDeclaration (token : Token) (access : Access) : Rule (InterfaceDecl Token)
  /-- A whole text of classes and interfaces. -/
  | module : Rule (Program Token)

/-- How to read by the rules of some level. The class around, if there is one, is the type that
unqualified calls are made on. -/
structure Level where
  /-- The greatest number of digits that an integer literal may have, if there is one. -/
  integerDigits : Option Nat
  read : {α : Type} → (enclosing : Option String) → Rule α → Parser α

end ClassLang
