import ClassLang.Proofs.Tree.SingleLines

/-! # Lines and blocks of lines

Cut at its line feeds, the text of a proper tree gives back the lines of the outline. They are the
line of the root and, for each child with lines, the block of the lines that the child has by
itself. So there is one line for each node that does not stand in the line of another, and one for
each word that stands for no node.
-/

namespace ClassLang

open Outline

variable {ι : Type}

namespace Node

variable {child node root : Node ι}

/-! ## What is counted -/

/-- The node is an argument, which stands in the line of its method. -/
def isArgument : Node ι → Bool
  | argument _ => true
  | _ => false

/-- The node is an `if` with something to do otherwise. -/
def hasElse : Node ι → Bool
  | stmt (.ifElse _ _ _ other) => other.isSome
  | _ => false

/-- How many of its clauses a `for` lacks. -/
def absentClauses : Node ι → Nat
  | stmt (.forLoop _ first condition step _) =>
      first.isNone.toNat + condition.isNone.toNat + step.isNone.toNat
  | _ => 0

/-- One line for each node but arguments, one for each `if` with something to do otherwise, and one
for each clause that a `for` lacks. -/
def lineCount (root : Node ι) : Nat :=
  root.nodes.countP (!·.isArgument) + root.nodes.countP hasElse +
    (root.nodes.map absentClauses).sum

/-- The children with lines of their own, in the order of the lines: interfaces come before
classes, all others as they do in the node. -/
def shown : Node ι → List (Node ι)
  | program tree => tree.interfaces.map interfaceDecl ++ tree.classes.map classDecl
  | node => node.children.filter (!·.isArgument)

/-- The text of a node cut at its line feeds. -/
def lines (node : Node ι) : List String := (node.text.toList.splitOn '\n').map String.ofList

/-- The lines of a tree are those of its nodes, block in block. -/
structure PrintsShape (root : Node ι) : Prop where
  length_lines : root.lines.length = root.lineCount
  /-- Each child with lines, and each clause that is not there, has its place among the blocks. -/
  shown_eq : ∀ node ∈ root.nodes,
    node.inner.reduceOption ++ node.otherwise.toList = node.shown
  lines_eq : ∀ node ∈ root.nodes, node.lines =
    node.headline :: (below (node.inner.flatMap (orEmpty lines)) ++
      Outline.optional (fun other => "Else" :: below other.lines) node.otherwise)

/-! ## One line for each node -/

theorem lineCount_eq (node : Node ι) : node.lineCount =
    (!node.isArgument).toNat + node.hasElse.toNat + node.absentClauses +
      (node.children.map lineCount).sum := by
  have hchildren (children : List (Node ι)) : (children.map lineCount).sum =
      (children.flatMap nodes).countP (!·.isArgument) +
        (children.flatMap nodes).countP hasElse +
        ((children.flatMap nodes).map absentClauses).sum := by
    induction children with
    | nil => rfl
    | cons child children ih =>
        simp only [List.map_cons, List.sum_cons, ih, List.flatMap_cons, List.countP_append,
          List.map_append, List.sum_append, lineCount]
        omega
  have hcount (p : Node ι → Bool) (rest : List (Node ι)) :
      (node :: rest).countP p = (p node).toNat + rest.countP p := by
    rw [List.countP_cons, Nat.add_comm]
    cases p node <;> rfl
  rw [hchildren, lineCount, nodes_eq, hcount, hcount, List.map_cons, List.sum_cons]
  omega

theorem lineCount_argument (decl : Argument ι) : (argument decl).lineCount = 0 := by
  rw [lineCount_eq]
  rfl

/-- Arguments add no lines. -/
theorem sum_lineCount_shown (node : Node ι) :
    (node.shown.map lineCount).sum = (node.children.map lineCount).sum := by
  have hfilter (children : List (Node ι)) :
      ((children.filter (!·.isArgument)).map lineCount).sum = (children.map lineCount).sum := by
    induction children with
    | nil => rfl
    | cons child children ih =>
        cases child with
        | argument decl =>
            rw [List.filter_cons_of_neg (by simp [isArgument]), List.map_cons, List.sum_cons,
              lineCount_argument, Nat.zero_add, ih]
        | _ =>
          rw [List.filter_cons_of_pos rfl, List.map_cons, List.map_cons, List.sum_cons,
            List.sum_cons, ih]
  cases node with
  | program tree =>
      rw [shown, children_program, List.map_append, List.map_append, List.sum_append,
        List.sum_append, Nat.add_comm]
  | _ => exact hfilter _

/-- What has a place below the line of a node or beside it are the children that are shown. -/
theorem shown_eq_inner (node : Node ι) :
    node.inner.reduceOption ++ node.otherwise.toList = node.shown := by
  cases node with
  | stmt tree =>
      have hnone : ∀ child ∈ (stmt tree).children, !child.isArgument := by
        rw [children_stmt]
        cases tree <;> simp +contextual [isArgument, or_imp, forall_and]
      rw [← children_stmt_eq_inner]
      exact (List.filter_eq_self.mpr hnone).symm
  | argument => rfl
  | field decl =>
      rw [shown, children_field, inner]
      · cases decl.value <;> rfl
      · rintro _ ⟨⟩
  | _ =>
    simp [inner, otherwise, shown, children_expr, children_stub, children_method,
      children_classDecl, children_interfaceDecl, isArgument, List.reduceOption, List.filter_map,
      Function.comp_def]

theorem countP_inner (node : Node ι) : node.inner.countP (·.isNone) = node.absentClauses := by
  cases node with
  | stmt tree =>
      cases tree with
      | forLoop tag first condition step body =>
          cases first <;> cases condition <;> cases step <;> rfl
      | _ => simp [inner, absentClauses]
  | _ => simp [inner, absentClauses]

theorem isSome_otherwise (node : Node ι) : node.otherwise.isSome = node.hasElse := by
  cases node with
  | stmt tree => cases tree <;> simp [otherwise, hasElse]
  | _ => rfl

theorem length_flatMap_orEmpty (places : List (Option (Node ι))) :
    (places.flatMap (orEmpty outline)).length =
      places.countP (·.isNone) + (places.reduceOption.map (·.outline.length)).sum := by
  induction places with
  | nil => rfl
  | cons place places ih =>
      rw [List.flatMap_cons, List.length_append, ih]
      cases place with
      | none =>
          have hempty : (orEmpty outline (none : Option (Node ι))).length = 1 := rfl
          rw [List.countP_cons_of_pos rfl, List.reduceOption_cons_of_none, hempty]
          omega
      | some child =>
          rw [List.countP_cons_of_neg (by simp), List.reduceOption_cons_of_some, List.map_cons,
            List.sum_cons]
          exact Nat.add_left_comm ..

theorem length_elseLines (place : Option (Node ι)) :
    (elseLines place).length = place.isSome.toNat + (place.toList.map (·.outline.length)).sum := by
  cases place with
  | none => rfl
  | some other =>
      change ("Else" :: below other.outline).length = 1 + (other.outline.length + 0)
      rw [List.length_cons, below, List.length_map]
      omega

theorem isArgument_of_mem_shown (hmem : child ∈ node.shown) : child.isArgument = false := by
  cases node with
  | program tree =>
      obtain hmem | hmem := List.mem_append.mp hmem
      all_goals
        obtain ⟨_, _, rfl⟩ := List.mem_map.mp hmem
        rfl
  | _ => simpa using (List.mem_filter.mp hmem).2

/-- An outline has as many lines as there are nodes and words to stand in them. -/
theorem length_outline (hnode : node.isArgument = false) :
    node.outline.length = node.lineCount := by
  induction node using induction_on_lines with
  | step node hinner hotherwise =>
      have hshown : ∀ child ∈ node.shown, child.outline.length = child.lineCount := by
        intro child hmem
        have hchild := isArgument_of_mem_shown hmem
        rw [← shown_eq_inner] at hmem
        obtain hmem | hmem := List.mem_append.mp hmem
        · exact hinner child (List.reduceOption_mem_iff.mp hmem) hchild
        · exact hotherwise child (Option.mem_toList.mp hmem) hchild
      have hsum := congrArg List.sum (List.map_congr_left hshown)
      rw [sum_lineCount_shown, ← shown_eq_inner, List.map_append, List.sum_append] at hsum
      rw [outline_eq, lineCount_eq, hnode, ← hsum, List.length_cons, List.length_append, below,
        List.length_map, length_flatMap_orEmpty, length_elseLines, countP_inner, isSome_otherwise,
        Bool.not_false, Bool.toNat_true]
      omega

/-! ## The text cut into lines -/

/-- No line of a proper tree is cut, and none is joined with another. -/
theorem ProperAll.lines_eq_outline (hnode : node.ProperAll) : node.lines = node.outline := by
  have hlines : (node.outline.map String.toList).map String.ofList = node.outline := by
    simp [Function.comp_def]
  rw [lines, text, splitOn_intercalate_newline hnode.isSingle_of_mem_outline node.outline_ne_nil,
    hlines]

theorem ProperAll.of_mem_nodes (hroot : root.ProperAll) (hmem : node ∈ root.nodes) :
    node.ProperAll :=
  (mem_nodes.mp hmem).inherit (fun _ hparent _ hchild => hparent.of_mem_children hchild) hroot

/-- The lines of a proper tree are those of its nodes, block in block. -/
theorem ProperAll.printsShape (hroot : root.ProperAll) (hargument : root.isArgument = false) :
    root.PrintsShape where
  length_lines := by rw [hroot.lines_eq_outline, length_outline hargument]
  shown_eq node _ := node.shown_eq_inner
  lines_eq node hmem := by
    have hnode : node.ProperAll := hroot.of_mem_nodes hmem
    have hplace (place : Option (Node ι)) (hplace : place ∈ node.inner) :
        orEmpty outline place = orEmpty lines place := by
      cases place with
      | none => rfl
      | some child =>
          exact (hnode.of_mem_children (mem_children_of_inner hplace)).lines_eq_outline.symm
    have helse : elseLines node.otherwise =
        Outline.optional (fun other => "Else" :: below other.lines) node.otherwise := by
      cases hother : node.otherwise with
      | none => rfl
      | some other =>
          have hproper := hnode.of_mem_children (mem_children_of_otherwise hother)
          rw [elseLines, Outline.optional, Outline.optional, Option.elim_some, Option.elim_some,
            hproper.lines_eq_outline]
    rw [hnode.lines_eq_outline, outline_eq, List.flatMap_congr hplace, helse]

end Node

end ClassLang
