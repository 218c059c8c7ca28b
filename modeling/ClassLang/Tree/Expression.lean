import ClassLang.Decimal.Notation
import ClassLang.Token.Symbol

/-! # Expressions

Expression trees. Every node carries a tag of a type of the reader's choice:
trees that are read from a text are tagged with tokens, and two trees have the
same shape when they agree up to their tags.
-/

namespace ClassLang

/-- What an operator node applies. -/
inductive Operator where
  /-- The choice between two operands by the first of three. -/
  | conditional
  /-- A unary or binary operator or a compound assignment, written with this symbol. -/
  | symbol (symbol : Symbol)
deriving DecidableEq, Repr

/-- How an operator is called. -/
def Operator.spelling : Operator → String
  | .conditional => "?:"
  | .symbol s => s.spelling

/-- An expression. -/
inductive Expr (ι : Type) where
  | this (tag : ι)
  | null (tag : ι)
  | bool (tag : ι) (value : Bool)
  | int (tag : ι) (value : Nat)
  | float (tag : ι) (value : Decimal.Binary64)
  | string (tag : ι) (value : String)
  | name (tag : ι) (name : String)
  | operator (tag : ι) (operator : Operator) (operands : List (Expr ι))
  /-- Assignment to a variable. -/
  | assign (tag : ι) (name : String) (value : Expr ι)
  /-- The value of a field of an object. -/
  | get (tag : ι) (owner : Expr ι) (name : String)
  /-- Assignment to a field of an object. -/
  | set (tag : ι) (owner : Expr ι) (name : String) (value : Expr ι)
  /-- The value of a field of a type. -/
  | getStatic (tag : ι) (type name : String)
  /-- Assignment to a field of a type. -/
  | setStatic (tag : ι) (type name : String) (value : Expr ι)
  /-- A call of a method of an object. -/
  | call (tag : ι) (owner : Expr ι) (name : String) (arguments : List (Expr ι))
  /-- A call of a method of a type. An unqualified call outside any class names no type. -/
  | callStatic (tag : ι) (type : Option String) (name : String) (arguments : List (Expr ι))
  /-- A new object of a type. -/
  | new (tag : ι) (type : String) (arguments : List (Expr ι))
deriving Repr

namespace Expr

variable {ι κ : Type}

/-- The tag of the root. -/
def tag : Expr ι → ι
  | this t | null t | bool t _ | int t _ | float t _ | string t _ | name t _ => t
  | operator t _ _ | assign t _ _ | get t _ _ | set t _ _ _ => t
  | getStatic t _ _ | setStatic t _ _ _ | call t _ _ _ | callStatic t _ _ _ | new t _ _ => t

mutual

/-- Two trees have the same shape. -/
def same : Expr ι → Expr κ → Bool
  | this _, this _ => true
  | null _, null _ => true
  | bool _ a, bool _ b => a == b
  | int _ a, int _ b => a == b
  | float _ a, float _ b => a == b
  | string _ a, string _ b => a == b
  | name _ a, name _ b => a == b
  | operator _ a as, operator _ b bs => a == b && sameAll as bs
  | assign _ a x, assign _ b y => a == b && x.same y
  | get _ x a, get _ y b => x.same y && a == b
  | set _ x a v, set _ y b w => x.same y && a == b && v.same w
  | getStatic _ s a, getStatic _ t b => s == t && a == b
  | setStatic _ s a x, setStatic _ t b y => s == t && a == b && x.same y
  | call _ x a as, call _ y b bs => x.same y && a == b && sameAll as bs
  | callStatic _ s a as, callStatic _ t b bs => s == t && a == b && sameAll as bs
  | new _ s as, new _ t bs => s == t && sameAll as bs
  | _, _ => false

/-- Two lists of trees have the same shapes in the same order. -/
def sameAll : List (Expr ι) → List (Expr κ) → Bool
  | [], [] => true
  | a :: as, b :: bs => a.same b && sameAll as bs
  | _, _ => false

end

end Expr

end ClassLang
