import ClassLang.Proofs.Tree.Within
import ClassLang.Tree.Printing

/-! # Levels of a tree

How deep a tree is, told by the ways that lead down from its root, and which trees are printed:
those of fewer than 490 levels.
-/

namespace ClassLang.Node

variable {ι : Type}

/-- A way leads that many steps down from the node, from child to child. -/
inductive Descends : (steps : Nat) → Node ι → Prop
  | stay {node} : Descends 0 node
  | down {steps node child} : child ∈ node.children → Descends steps child →
      Descends (steps + 1) node

/-- A way down has led fewer steps down before. -/
theorem Descends.mono {steps fewer : Nat} {node : Node ι} (hdescends : node.Descends steps)
    (hle : fewer ≤ steps) : node.Descends fewer := by
  induction hdescends generalizing fewer with
  | stay => exact Nat.le_zero.mp hle ▸ .stay
  | down hchild _ ih =>
      cases fewer with
      | zero => exact .stay
      | succ fewer => exact .down hchild (ih (Nat.le_of_succ_le_succ hle))

theorem Descends.ofBody {steps : Nat} {decl : Method ι}
    (hdescends : (stmt decl.body).Descends steps) : (method decl).Descends (steps + 1) :=
  .down (by simp [children_method]) hdescends

theorem Descends.ofMethod {steps : Nat} {decl : ClassDecl ι} {member : Method ι}
    (hmember : member ∈ decl.methods) (hdescends : (method member).Descends steps) :
    (classDecl decl).Descends (steps + 1) :=
  .down (by simp [children_classDecl, hmember]) hdescends

/-- A way down from a node within a tree is part of one down from the root. -/
theorem Descends.of_within {steps : Nat} {node root : Node ι} (hdescends : node.Descends steps)
    (hnode : node.Within root) : root.Descends steps := by
  induction hnode with
  | refl => exact hdescends
  | child hmem _ ih => exact (Descends.down hmem ih).mono (Nat.le_succ steps)

/-- Two calls for each level reach all nodes if no way leads further down. -/
theorem nestsWithin_iff (calls : Nat) (node : Node ι) :
    node.nestsWithin calls ↔ ¬ node.Descends (calls / 2) := by
  fun_induction nestsWithin calls node with
  | case1 calls node ih =>
      have hhalf : (calls + 2) / 2 = calls / 2 + 1 := Nat.add_div_right calls (by decide)
      rw [List.all_eq_true, hhalf]
      constructor
      · intro hall hdescends
        cases hdescends with
        | down hchild hrest => exact (ih _).mp (hall _ hchild) hrest
      · exact fun hnone child hchild => (ih child).mpr fun hrest => hnone (.down hchild hrest)
  | case2 calls node hcalls =>
      have hzero : calls / 2 = 0 := by
        cases calls with
        | zero => rfl
        | succ calls =>
            cases calls with
            | zero => rfl
            | succ calls => exact absurd rfl (hcalls calls)
      simp [hzero, Descends.stay]

theorem not_descends_of_nestsWithin {node : Node ι} (hnests : node.nestsWithin (callLimit - 1)) :
    ¬ node.Descends 489 :=
  (nestsWithin_iff _ node).mp hnests

/-- A tree of 490 levels is not printed. -/
theorem print_of_descends {node : Node ι} (hdescends : node.Descends 489) :
    node.print = .error .nestingTooDeep := by
  rw [print, printWithin, if_neg]
  exact fun hnests => not_descends_of_nestsWithin hnests hdescends

/-- A tree of fewer levels is printed. -/
theorem print_of_not_descends {node : Node ι} (hshallow : ¬ node.Descends 489) :
    node.print = .ok node.text := by
  rw [print, printWithin, if_pos]
  exact (nestsWithin_iff _ node).mpr hshallow

/-- All nodes of a tree that is not too deep are printed. -/
theorem print_of_mem_nodes {node root : Node ι} (hshallow : ¬ root.Descends 489)
    (hmem : node ∈ root.nodes) : node.print = .ok node.text :=
  print_of_not_descends fun hdescends => hshallow (hdescends.of_within (mem_nodes.mp hmem))

end ClassLang.Node
