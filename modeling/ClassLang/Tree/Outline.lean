import ClassLang.Text.Quoted
import ClassLang.Tree.Node

/-! # Outlines

A tree written down as an outline: a line for each node, and below it, two
spaces further in, the lines of its children. Arguments of methods stand in the
line of the method. The word for the other branch of an `if` stands as far in
as the `if`; an absent part of a `for` has a line that says so.
-/

namespace ClassLang

namespace Outline

/-- The line two spaces further in. -/
def indent (line : String) : String := "  " ++ line

/-- The lines two spaces further in. -/
def below (lines : List String) : List String := lines.map indent

/-- The lines of an optional child that leaves no trace when absent. -/
def optional {α : Type} (lines : α → List String) (child : Option α) : List String :=
  child.elim [] lines

/-- The lines of an optional child whose absence is shown. -/
def orEmpty {α : Type} (lines : α → List String) (child : Option α) : List String :=
  child.elim ["Empty"] lines

/-- Names after a word that introduces them, or nothing when there are none. -/
def listed (word : String) (names : List String) : String :=
  if names.isEmpty then "" else s!" {word} " ++ ", ".intercalate names

end Outline

open Outline

variable {ι : Type}

/-- The outline of an expression. -/
def Expr.outline : Expr ι → List String
  | this _ => ["This"]
  | null _ => ["Null"]
  | bool _ value => [if value then "Bool true" else "Bool false"]
  | int _ value => [s!"Int {value}"]
  | float _ value => [s!"Float {value}"]
  | string _ value => ["String " ++ String.ofList (Text.quoted value.toList)]
  | name _ n => [s!"Name {n}"]
  | operator _ op operands => s!"Operator {op.spelling}" :: below (operands.flatMap outline)
  | assign _ n value => s!"Assign {n}" :: below value.outline
  | get _ owner n => s!"GetAttribute {n}" :: below owner.outline
  | set _ owner n value => s!"SetAttribute {n}" :: below (owner.outline ++ value.outline)
  | getStatic _ type n => [s!"GetStaticAttribute {type}.{n}"]
  | setStatic _ type n value => s!"SetStaticAttribute {type}.{n}" :: below value.outline
  | call _ owner n arguments =>
      s!"MethodCall {n}" :: below (owner.outline ++ arguments.flatMap outline)
  | callStatic _ type n arguments =>
      let owner := type.getD "None"
      s!"StaticMethodCall {owner}.{n}" :: below (arguments.flatMap outline)
  | new _ type arguments => s!"New {type}" :: below (arguments.flatMap outline)
termination_by expression => sizeOf expression

/-- The outline of a statement. -/
def Stmt.outline : Stmt ι → List String
  | block _ statements => "Block" :: below (statements.flatMap outline)
  | ifElse _ condition body none => "If" :: below (condition.outline ++ body.outline)
  | ifElse _ condition body (some other) =>
      "If" :: below (condition.outline ++ body.outline) ++ "Else" :: below other.outline
  | forLoop _ none condition step body =>
      "For" :: below ("Empty" :: orEmpty Expr.outline condition ++ orEmpty Expr.outline step ++
        body.outline)
  | forLoop _ (some first) condition step body =>
      "For" :: below (first.outline ++ orEmpty Expr.outline condition ++
        orEmpty Expr.outline step ++ body.outline)
  | whileLoop _ condition body => "While" :: below (condition.outline ++ body.outline)
  | breakLoop _ => ["Break"]
  | continueLoop _ => ["Continue"]
  | declaration _ type name value =>
      s!"Declaration {type} {name}" :: below (optional Expr.outline value)
  | returnValue _ value => "Return" :: below (optional Expr.outline value)
  | expression _ value => "ExpressionStatement" :: below value.outline
termination_by statement => sizeOf statement

/-- The arguments of a method in the line of the method. -/
def Argument.inline (arguments : List (Argument ι)) : String :=
  "(" ++ ", ".intercalate (arguments.map fun a => s!"{a.type} {a.name}") ++ ")"

/-- The access of a member, and whether it belongs to the class itself. -/
def Access.modifiers (access : Access) (isStatic : Bool) : String :=
  access.word ++ if isStatic then " static" else ""

/-- The outline of an argument by itself. -/
def Argument.outline (a : Argument ι) : List String := [s!"Argument {a.type} {a.name}"]

/-- The outline of a field. -/
def Field.outline (a : Field ι) : List String :=
  s!"Field {a.access.modifiers a.isStatic} {a.type} {a.name}" ::
    below (optional Expr.outline a.value)

/-- The outline of a stub, a single line. -/
def MethodStub.outline (a : MethodStub ι) : List String :=
  [s!"MethodStub {a.access.word} {a.returnType} {a.name}{Argument.inline a.arguments}"]

/-- The outline of a method. -/
def Method.outline (a : Method ι) : List String :=
  s!"Method {a.access.modifiers a.isStatic} {a.returnType} {a.name}{Argument.inline a.arguments}" ::
    below a.body.outline

/-- The outline of a class, fields before methods. -/
def ClassDecl.outline (a : ClassDecl ι) : List String :=
  (s!"Class {a.access.word} {a.name} extends {a.base}" ++ listed "implements" a.interfaces) ::
    below (a.fields.flatMap Field.outline ++ a.methods.flatMap Method.outline)

/-- The outline of an interface. -/
def InterfaceDecl.outline (a : InterfaceDecl ι) : List String :=
  (s!"Interface {a.access.word} {a.name}" ++ listed "extends" a.bases) ::
    below (a.stubs.flatMap MethodStub.outline)

/-- The outline of a program, interfaces before classes. -/
def Program.outline (a : Program ι) : List String :=
  "Program" ::
    below (a.interfaces.flatMap InterfaceDecl.outline ++ a.classes.flatMap ClassDecl.outline)

namespace Node

/-- The outline of a node. -/
def outline : Node ι → List String
  | expr n => n.outline
  | stmt n => n.outline
  | argument n => n.outline
  | field n => n.outline
  | stub n => n.outline
  | method n => n.outline
  | classDecl n => n.outline
  | interfaceDecl n => n.outline
  | program n => n.outline

/-- The outline of a node as one text. -/
def text (node : Node ι) : String := "\n".intercalate node.outline

end Node

end ClassLang
