import ClassLang.Tree.Expression

/-! # Statements

Statement trees, tagged like expressions.
-/

namespace ClassLang

/-- A statement. -/
inductive Stmt (ι : Type) where
  | block (tag : ι) (statements : List (Stmt ι))
  /-- A body run on a condition, with perhaps another one to run otherwise. -/
  | ifElse (tag : ι) (condition : Expr ι) (body : Stmt ι) (other : Option (Stmt ι))
  /-- A loop with a first step, a condition to go on and a step after each round. -/
  | forLoop (tag : ι) (first : Option (Stmt ι)) (condition step : Option (Expr ι))
      (body : Stmt ι)
  /-- A loop that goes on while its condition holds. -/
  | whileLoop (tag : ι) (condition : Expr ι) (body : Stmt ι)
  /-- Leave the loop around. -/
  | breakLoop (tag : ι)
  /-- Go on with the next round of the loop around. -/
  | continueLoop (tag : ι)
  | declaration (tag : ι) (type name : String) (value : Option (Expr ι))
  | returnValue (tag : ι) (value : Option (Expr ι))
  | expression (tag : ι) (value : Expr ι)
deriving Repr

namespace Stmt

variable {ι κ : Type}

/-- The tag of the root. -/
def tag : Stmt ι → ι
  | block t _ | ifElse t _ _ _ | forLoop t _ _ _ _ | whileLoop t _ _ => t
  | breakLoop t | continueLoop t | declaration t _ _ _ | returnValue t _ | expression t _ => t

/-- Two optional expressions are both absent or have the same shape. -/
def sameValue : Option (Expr ι) → Option (Expr κ) → Bool
  | none, none => true
  | some a, some b => a.same b
  | _, _ => false

mutual

/-- Two trees have the same shape. -/
def same : Stmt ι → Stmt κ → Bool
  | block _ as, block _ bs => sameAll as bs
  | ifElse _ c a o, ifElse _ d b p => c.same d && a.same b && sameOption o p
  | forLoop _ f c s a, forLoop _ g d t b =>
      sameOption f g && sameValue c d && sameValue s t && a.same b
  | whileLoop _ c a, whileLoop _ d b => c.same d && a.same b
  | breakLoop _, breakLoop _ => true
  | continueLoop _, continueLoop _ => true
  | declaration _ s a v, declaration _ t b w => s == t && a == b && sameValue v w
  | returnValue _ v, returnValue _ w => sameValue v w
  | expression _ v, expression _ w => v.same w
  | _, _ => false

/-- Two optional trees are both absent or have the same shape. -/
def sameOption : Option (Stmt ι) → Option (Stmt κ) → Bool
  | none, none => true
  | some a, some b => a.same b
  | _, _ => false

/-- Two lists of trees have the same shapes in the same order. -/
def sameAll : List (Stmt ι) → List (Stmt κ) → Bool
  | [], [] => true
  | a :: as, b :: bs => a.same b && sameAll as bs
  | _, _ => false

end

end Stmt

end ClassLang
