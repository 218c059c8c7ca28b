import ClassLang.Tree.Outline

/-! # Printing

A node is printed as its outline. Printing goes down the tree by calls, and like
the nesting of rules in reading the nesting of these calls is bounded: however
wide a tree is, it is printed only if it is not too deep. A value that is no
node is refused by the name of its type.
-/

namespace ClassLang

variable {ι : Type}

/-- The types of what a tree and its tokens hold besides nodes. -/
inductive PlainType where
  | tuple | absent | text | access | flag | int | float | token | source
deriving DecidableEq, Repr

/-- The name of a type. -/
def PlainType.name : PlainType → String
  | tuple => "tuple"
  | absent => "NoneType"
  | text => "str"
  | access => "AccessModifier"
  | flag => "bool"
  | int => "int"
  | float => "float"
  | token => "Token"
  | source => "Source"

/-- Why a value is not printed. -/
inductive PrintFailure where
  /-- The calls that print the tree would nest deeper than they may. -/
  | nestingTooDeep
  /-- The value is no node. -/
  | noNode (type : PlainType)
deriving DecidableEq, Repr

/-- What is said about a value that is not printed. -/
def PrintFailure.message : PrintFailure → String
  | nestingTooDeep => "maximum recursion depth exceeded"
  | noNode type => s!"Cannot format {type.name} as an AST node"

namespace Node

/-- Calls that nest no deeper than given reach all nodes of a tree. On each level one call is for
the node, and one in it for its line or for its children. -/
def nestsWithin : (calls : Nat) → Node ι → Bool
  | calls + 2, node => node.children.all fun child => child.nestsWithin calls
  | _, _ => false

/-- How deep the calls that print a tree may nest, the one for the whole tree included. -/
def callLimit : Nat := 980

/-- Print a tree, calls nested to the given depth. -/
def printWithin (calls : Nat) (node : Node ι) : Except PrintFailure String :=
  if node.nestsWithin (calls - 1) then .ok node.text else .error .nestingTooDeep

/-- Print a tree. -/
def print (node : Node ι) : Except PrintFailure String := node.printWithin callLimit

end Node

/-- Print what a field of a node holds, which has to be a node. -/
def FieldValue.print : FieldValue ι → Except PrintFailure String
  | node value => value.print
  | nodes _ | texts _ => .error (.noNode .tuple)
  | absent | noText => .error (.noNode .absent)
  | text _ => .error (.noNode .text)
  | access _ => .error (.noNode .access)
  | flag _ => .error (.noNode .flag)
  | int _ => .error (.noNode .int)
  | float _ => .error (.noNode .float)

end ClassLang
