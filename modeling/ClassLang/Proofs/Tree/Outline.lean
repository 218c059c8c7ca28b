import ClassLang.Proofs.Tree.Headline
import Mathlib.Data.List.ReduceOption

/-! # Outlines of nodes

The outline of a node is its line, below it the outlines of its children, and beside both what is
done otherwise. Whatever is said of outlines is shown along this one equation.
-/

namespace ClassLang

open Outline

variable {ι : Type}

namespace Node

variable {child node : Node ι}

/-! ## One equation -/

/-- The children with lines below the line of a node, with a place for each whose absence is
shown. -/
def inner : Node ι → List (Option (Node ι))
  | expr tree => tree.parts.map fun part => some (.expr part)
  | stmt (.block _ statements) => statements.map fun statement => some (.stmt statement)
  | stmt (.ifElse _ condition body _) | stmt (.whileLoop _ condition body) =>
      [some (.expr condition), some (.stmt body)]
  | stmt (.forLoop _ first condition step body) =>
      [first.map .stmt, condition.map .expr, step.map .expr, some (.stmt body)]
  | stmt (.declaration _ _ _ value) | stmt (.returnValue _ value) =>
      value.toList.map fun value => some (.expr value)
  | stmt (.expression _ value) => [some (.expr value)]
  | stmt (.breakLoop _) | stmt (.continueLoop _) | argument _ | stub _ => []
  | field decl => decl.value.toList.map fun value => some (.expr value)
  | method decl => [some (.stmt decl.body)]
  | classDecl decl =>
      (decl.fields.map fun field => some (.field field)) ++
        decl.methods.map fun method => some (.method method)
  | interfaceDecl decl => decl.stubs.map fun stub => some (.stub stub)
  | program tree =>
      (tree.interfaces.map fun decl => some (.interfaceDecl decl)) ++
        tree.classes.map fun decl => some (.classDecl decl)

/-- What is done otherwise, with lines beside those of the node. -/
def otherwise : Node ι → Option (Node ι)
  | stmt (.ifElse _ _ _ other) => other.map .stmt
  | _ => none

/-- The lines of what is done otherwise. -/
def elseLines (place : Option (Node ι)) : List String :=
  Outline.optional (fun other => "Else" :: below other.outline) place

theorem outline_expr (tree : Expr ι) :
    tree.outline = (expr tree).headline :: below (tree.parts.flatMap Expr.outline) := by
  cases tree with
  | bool tag value => cases value <;> rw [Expr.outline] <;> rfl
  | _ =>
    simp [Expr.outline, headline, sort, Expr.sort, remark, Expr.remark, Expr.parts, below,
      toString_text, ← String.toList_inj]

theorem outline_stmt (tree : Stmt ι) : tree.outline =
    (stmt tree).headline :: (below ((stmt tree).inner.flatMap (orEmpty outline)) ++
      elseLines (stmt tree).otherwise) := by
  cases tree with
  | ifElse tag condition body failing =>
    cases failing <;> simp [Stmt.outline, headline, sort, Stmt.sort, remark, Stmt.remark, inner,
      otherwise, orEmpty, elseLines, Outline.optional, outline]
  | forLoop tag first condition step body =>
    cases first <;> cases condition <;> cases step <;>
      simp [Stmt.outline, headline, sort, Stmt.sort, remark, Stmt.remark, inner, otherwise, orEmpty,
        elseLines, Outline.optional, outline]
  | declaration tag type name value | returnValue tag value =>
    cases value <;> simp [Stmt.outline, headline, sort, Stmt.sort, remark, Stmt.remark, inner,
      otherwise, orEmpty, elseLines, Outline.optional, outline, toString_text, ← String.toList_inj]
  | _ =>
    simp [Stmt.outline, headline, sort, Stmt.sort, remark, Stmt.remark, inner, otherwise, orEmpty,
      elseLines, Outline.optional, outline, List.flatMap_map, below]

/-- The line of a node comes first, then the lines of its children, then what is done otherwise. -/
theorem outline_eq (node : Node ι) : node.outline =
    node.headline :: (below (node.inner.flatMap (orEmpty outline)) ++
      elseLines node.otherwise) := by
  cases node with
  | expr tree =>
      rw [outline, outline_expr, inner, List.flatMap_map]
      exact congrArg (_ :: ·) (List.append_nil _).symm
  | stmt tree => exact outline_stmt tree
  | field decl =>
      refine congrArg₂ List.cons ?_ ?_
      · simp [headline, sort, remark, toString_text, ← String.toList_inj]
      · cases hvalue : decl.value <;>
          simp [inner, hvalue, otherwise, elseLines, Outline.optional, orEmpty, outline]
  | method decl =>
      refine congrArg₂ List.cons ?_ ?_
      · simp [headline, sort, remark, toString_text, ← String.toList_inj]
      · simp [inner, otherwise, elseLines, Outline.optional, orEmpty, outline]
  | _ =>
    refine congrArg₂ List.cons ?_ ?_
    · simp [headline, sort, remark, toString_text, ← String.toList_inj]
    · simp only [inner, otherwise, elseLines, Outline.optional, Option.elim_none, List.append_nil,
        List.flatMap_append, List.flatMap_map]
      rfl

theorem outline_ne_nil (node : Node ι) : node.outline ≠ [] := by
  rw [outline_eq]
  exact List.cons_ne_nil _ _

/-! ## Children with lines -/

theorem children_stmt_eq_inner (tree : Stmt ι) : (stmt tree).children =
    (stmt tree).inner.reduceOption ++ (stmt tree).otherwise.toList := by
  rw [children_stmt]
  cases tree with
  | block tag statements => simp [inner, otherwise, List.reduceOption]
  | ifElse tag condition body failing => cases failing <;> rfl
  | forLoop tag first condition step body =>
    cases first <;> cases condition <;> cases step <;> rfl
  | declaration tag type name value | returnValue tag value => cases value <;> rfl
  | _ => rfl

theorem mem_children_of_inner (hmem : some child ∈ node.inner) : child ∈ node.children := by
  cases node with
  | expr tree => simpa [inner, children_expr] using hmem
  | stmt tree =>
      rw [children_stmt_eq_inner]
      exact List.mem_append_left _ (List.reduceOption_mem_iff.mpr hmem)
  | argument | stub => cases hmem
  | field decl => simpa [inner, children_field] using hmem
  | method decl =>
      rw [children_method]
      exact List.mem_append_right _ (by simpa [inner] using hmem)
  | classDecl decl => simpa [inner, children_classDecl] using hmem
  | interfaceDecl decl => simpa [inner, children_interfaceDecl] using hmem
  | program tree => simpa [inner, children_program, or_comm] using hmem

theorem mem_children_of_otherwise (hmem : child ∈ node.otherwise) : child ∈ node.children := by
  cases node with
  | stmt tree =>
      rw [children_stmt_eq_inner]
      exact List.mem_append_right _ (Option.mem_toList.mpr hmem)
  | _ => cases hmem

/-- The outlines of the children that have lines are shorter. -/
theorem length_outline_of_inner (hmem : some child ∈ node.inner) :
    child.outline.length < node.outline.length := by
  have hsublist : child.outline.Sublist (node.inner.flatMap (orEmpty outline)) :=
    List.sublist_flatten_of_mem (List.mem_map_of_mem hmem)
  have hlength := hsublist.length_le
  rw [outline_eq node, List.length_cons, List.length_append, below, List.length_map]
  omega

theorem length_outline_of_otherwise (hmem : child ∈ node.otherwise) :
    child.outline.length < node.outline.length := by
  rw [outline_eq node, Option.mem_def.mp hmem, List.length_cons, List.length_append]
  have hlength : (elseLines (some child)).length = child.outline.length + 1 := by
    change ("Else" :: below child.outline).length = _
    rw [List.length_cons, below, List.length_map]
  omega

/-- What holds of a node if it does of the children that have lines, holds of all nodes. -/
theorem induction_on_lines {motive : Node ι → Prop}
    (step : ∀ node : Node ι, (∀ child, some child ∈ node.inner → motive child) →
      (∀ child ∈ node.otherwise, motive child) → motive node) (node : Node ι) : motive node := by
  induction hlength : node.outline.length using Nat.strong_induction_on generalizing node with
  | h length ih =>
      subst hlength
      exact step node (fun child hmem => ih _ (length_outline_of_inner hmem) child rfl)
        fun child hother => ih _ (length_outline_of_otherwise hother) child rfl

end Node

end ClassLang
