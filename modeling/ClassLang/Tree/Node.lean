import ClassLang.Tree.Declaration

/-! # Nodes

All sorts of tree nodes in one type, for what is said of any node whatever its
sort: the name of the sort, the tag, and the named fields. A field holds a node, a list of
nodes or plain data; an optional child may be absent.
-/

namespace ClassLang

/-- A node of a tree. -/
inductive Node (ι : Type) where
  | expr (node : Expr ι)
  | stmt (node : Stmt ι)
  | argument (node : Argument ι)
  | field (node : Field ι)
  | stub (node : MethodStub ι)
  | method (node : Method ι)
  | classDecl (node : ClassDecl ι)
  | interfaceDecl (node : InterfaceDecl ι)
  | program (node : Program ι)

/-- What a field of a node holds. -/
inductive FieldValue (ι : Type) where
  | node (value : Node ι)
  | nodes (values : List (Node ι))
  /-- An optional child that is not there. -/
  | absent
  | text (value : String)
  /-- An optional text that is not there. -/
  | noText
  | texts (values : List String)
  | access (value : Access)
  | flag (value : Bool)
  | int (value : Nat)
  | float (value : Decimal.Binary64)

namespace FieldValue

variable {ι : Type}

/-- An optional child. -/
def optional (child : Option (Node ι)) : FieldValue ι := child.elim absent node

/-- An expression as a child. -/
def expr (child : Expr ι) : FieldValue ι := node (.expr child)

/-- A statement as a child. -/
def stmt (child : Stmt ι) : FieldValue ι := node (.stmt child)

/-- Expressions as children. -/
def exprs (children : List (Expr ι)) : FieldValue ι := nodes (children.map .expr)

/-- The nodes among what a field holds. -/
def children : FieldValue ι → List (Node ι)
  | node child => [child]
  | nodes list => list
  | _ => []

end FieldValue

variable {ι : Type}

/-- The name of an expression's sort. -/
def Expr.sort : Expr ι → String
  | this _ => "This"
  | null _ => "Null"
  | bool _ _ => "Bool"
  | int _ _ => "Int"
  | float _ _ => "Float"
  | string _ _ => "String"
  | name _ _ => "Name"
  | operator _ _ _ => "Operator"
  | assign _ _ _ => "Assign"
  | get _ _ _ => "GetAttribute"
  | set _ _ _ _ => "SetAttribute"
  | getStatic _ _ _ => "GetStaticAttribute"
  | setStatic _ _ _ _ => "SetStaticAttribute"
  | call _ _ _ _ => "MethodCall"
  | callStatic _ _ _ _ => "StaticMethodCall"
  | new _ _ _ => "New"

/-- The fields of an expression. -/
def Expr.fields : Expr ι → List (String × FieldValue ι)
  | this _ | null _ => []
  | bool _ value => [("value", .flag value)]
  | int _ value => [("value", .int value)]
  | float _ value => [("value", .float value)]
  | string _ value => [("value", .text value)]
  | name _ n => [("name", .text n)]
  | operator _ op operands => [("operator", .text op.spelling), ("args", .exprs operands)]
  | assign _ n value => [("name", .text n), ("value", .expr value)]
  | get _ owner n => [("owner", .expr owner), ("name", .text n)]
  | set _ owner n value => [("owner", .expr owner), ("name", .text n), ("value", .expr value)]
  | getStatic _ type n => [("type", .text type), ("name", .text n)]
  | setStatic _ type n value => [("type", .text type), ("name", .text n), ("value", .expr value)]
  | call _ owner n arguments =>
      [("owner", .expr owner), ("name", .text n), ("args", .exprs arguments)]
  | callStatic _ type n arguments =>
      [("type", type.elim .noText .text), ("name", .text n), ("args", .exprs arguments)]
  | new _ type arguments => [("type", .text type), ("args", .exprs arguments)]

/-- The name of a statement's sort. -/
def Stmt.sort : Stmt ι → String
  | block _ _ => "Block"
  | ifElse _ _ _ _ => "If"
  | forLoop _ _ _ _ _ => "For"
  | whileLoop _ _ _ => "While"
  | breakLoop _ => "Break"
  | continueLoop _ => "Continue"
  | declaration _ _ _ _ => "Declaration"
  | returnValue _ _ => "Return"
  | expression _ _ => "ExpressionStatement"

/-- The fields of a statement. -/
def Stmt.fields : Stmt ι → List (String × FieldValue ι)
  | block _ statements => [("statements", .nodes (statements.map .stmt))]
  | ifElse _ condition body other =>
      [("condition", .expr condition), ("body", .stmt body),
        ("other", .optional (other.map .stmt))]
  | forLoop _ first condition step body =>
      [("initialize", .optional (first.map .stmt)), ("condition", .optional (condition.map .expr)),
        ("increment", .optional (step.map .expr)), ("body", .stmt body)]
  | whileLoop _ condition body => [("condition", .expr condition), ("body", .stmt body)]
  | breakLoop _ | continueLoop _ => []
  | declaration _ type name value =>
      [("type", .text type), ("name", .text name), ("expression", .optional (value.map .expr))]
  | returnValue _ value => [("expression", .optional (value.map .expr))]
  | expression _ value => [("expression", .expr value)]

namespace Node

/-- The tag of a node. -/
def tag : Node ι → ι
  | expr n => n.tag
  | stmt n => n.tag
  | argument n => n.tag
  | field n => n.tag
  | stub n => n.tag
  | method n => n.tag
  | classDecl n => n.tag
  | interfaceDecl n => n.tag
  | program n => n.tag

/-- The name of a node's sort. -/
def sort : Node ι → String
  | expr n => n.sort
  | stmt n => n.sort
  | argument _ => "Argument"
  | field _ => "Field"
  | stub _ => "MethodStub"
  | method _ => "Method"
  | classDecl _ => "Class"
  | interfaceDecl _ => "Interface"
  | program _ => "Program"

/-- The fields of a node in the order in which it is written down. -/
def fields : Node ι → List (String × FieldValue ι)
  | expr n => n.fields
  | stmt n => n.fields
  | argument n => [("type", .text n.type), ("name", .text n.name)]
  | field n =>
      [("access", .access n.access), ("is_static", .flag n.isStatic), ("type", .text n.type),
        ("name", .text n.name), ("value", .optional (n.value.map .expr))]
  | stub n =>
      [("access", .access n.access), ("return_type", .text n.returnType), ("name", .text n.name),
        ("args", .nodes (n.arguments.map argument))]
  | method n =>
      [("access", .access n.access), ("is_static", .flag n.isStatic),
        ("return_type", .text n.returnType), ("name", .text n.name),
        ("args", .nodes (n.arguments.map argument)), ("body", .stmt n.body)]
  | classDecl n =>
      [("access", .access n.access), ("name", .text n.name), ("base", .text n.base),
        ("interfaces", .texts n.interfaces), ("fields", .nodes (n.fields.map field)),
        ("methods", .nodes (n.methods.map method))]
  | interfaceDecl n =>
      [("access", .access n.access), ("name", .text n.name), ("bases", .texts n.bases),
        ("method_stubs", .nodes (n.stubs.map stub))]
  | program n =>
      [("classes", .nodes (n.classes.map classDecl)),
        ("interfaces", .nodes (n.interfaces.map interfaceDecl))]

/-- The children of a node. -/
def children (node : Node ι) : List (Node ι) := node.fields.flatMap (·.2.children)

end Node

end ClassLang
