import ClassLang.Tree.Statement

/-! # Declarations

Classes and interfaces with their members, and the program they make up.
-/

namespace ClassLang

/-- Who may use a declared thing. -/
inductive Access where
  | «public» | «private»
deriving DecidableEq, Repr

/-- The word for an access. -/
def Access.word : Access → String
  | .public => "public"
  | .private => "private"

/-- A typed argument of a method. -/
structure Argument (ι : Type) where
  tag : ι
  type : String
  name : String
deriving Repr

/-- A field of a class, perhaps with its first value. -/
structure Field (ι : Type) where
  tag : ι
  access : Access
  isStatic : Bool
  type : String
  name : String
  value : Option (Expr ι)
deriving Repr

/-- A method that an interface asks for. -/
structure MethodStub (ι : Type) where
  tag : ι
  access : Access
  returnType : String
  name : String
  arguments : List (Argument ι)
deriving Repr

/-- A method of a class. -/
structure Method (ι : Type) where
  tag : ι
  access : Access
  isStatic : Bool
  returnType : String
  name : String
  arguments : List (Argument ι)
  body : Stmt ι
deriving Repr

/-- A class. Fields and methods each keep the order in which they were declared. -/
structure ClassDecl (ι : Type) where
  tag : ι
  access : Access
  name : String
  base : String
  interfaces : List String
  fields : List (Field ι)
  methods : List (Method ι)
deriving Repr

/-- An interface. -/
structure InterfaceDecl (ι : Type) where
  tag : ι
  access : Access
  name : String
  bases : List String
  stubs : List (MethodStub ι)
deriving Repr

/-- The classes and the interfaces of a text, each in the order of the text. -/
structure Program (ι : Type) where
  tag : ι
  classes : List (ClassDecl ι)
  interfaces : List (InterfaceDecl ι)
deriving Repr

variable {ι κ : Type}

namespace Argument

/-- Two arguments are the same up to their tags. -/
def same (a : Argument ι) (b : Argument κ) : Bool := a.type == b.type && a.name == b.name

end Argument

/-- Two lists have the same length and their members agree pairwise. -/
def sameMembers {α β : Type} (same : α → β → Bool) : List α → List β → Bool
  | [], [] => true
  | a :: as, b :: bs => same a b && sameMembers same as bs
  | _, _ => false

namespace Field

/-- Two fields are the same up to their tags. -/
def same (a : Field ι) (b : Field κ) : Bool :=
  a.access == b.access && a.isStatic == b.isStatic && a.type == b.type && a.name == b.name &&
    Stmt.sameValue a.value b.value

end Field

namespace MethodStub

/-- Two stubs are the same up to their tags. -/
def same (a : MethodStub ι) (b : MethodStub κ) : Bool :=
  a.access == b.access && a.returnType == b.returnType && a.name == b.name &&
    sameMembers Argument.same a.arguments b.arguments

end MethodStub

namespace Method

/-- Two methods are the same up to their tags. -/
def same (a : Method ι) (b : Method κ) : Bool :=
  a.access == b.access && a.isStatic == b.isStatic && a.returnType == b.returnType &&
    a.name == b.name && sameMembers Argument.same a.arguments b.arguments && a.body.same b.body

end Method

namespace ClassDecl

/-- Two classes are the same up to their tags. -/
def same (a : ClassDecl ι) (b : ClassDecl κ) : Bool :=
  a.access == b.access && a.name == b.name && a.base == b.base && a.interfaces == b.interfaces &&
    sameMembers Field.same a.fields b.fields && sameMembers Method.same a.methods b.methods

end ClassDecl

namespace InterfaceDecl

/-- Two interfaces are the same up to their tags. -/
def same (a : InterfaceDecl ι) (b : InterfaceDecl κ) : Bool :=
  a.access == b.access && a.name == b.name && a.bases == b.bases &&
    sameMembers MethodStub.same a.stubs b.stubs

end InterfaceDecl

namespace Program

/-- Two programs are the same up to their tags. -/
def same (a : Program ι) (b : Program κ) : Bool :=
  sameMembers ClassDecl.same a.classes b.classes &&
    sameMembers InterfaceDecl.same a.interfaces b.interfaces

end Program

end ClassLang
