import ClassLang.Tree.Node

/-! # The nodes of a tree

A node is within a tree if the way down from the root, from child to child, comes by it. All nodes
that are within a tree stand in one list, parents before children.
-/

namespace ClassLang

variable {ι : Type}

/-- The node is the root, or within the tree of a child of the root. -/
inductive Node.Within (node : Node ι) : (root : Node ι) → Prop
  | refl : Within node node
  | child {root child} : child ∈ root.children → Within node child → Within node root

/-- The children of an expression, which are expressions. -/
def Expr.parts : Expr ι → List (Expr ι)
  | operator _ _ operands => operands
  | assign _ _ value | setStatic _ _ _ value => [value]
  | get _ owner _ => [owner]
  | set _ owner _ value => [owner, value]
  | call _ owner _ arguments => owner :: arguments
  | callStatic _ _ _ arguments | new _ _ arguments => arguments
  | _ => []

theorem Expr.sizeOf_lt_of_mem_parts {tree part : Expr ι} (hpart : part ∈ tree.parts) :
    sizeOf part < sizeOf tree := by
  cases tree with
  | operator _ _ operands | callStatic _ _ _ operands | new _ _ operands =>
    have hlt : sizeOf part < sizeOf operands := List.sizeOf_lt_of_mem hpart
    simp only [operator.sizeOf_spec, callStatic.sizeOf_spec, new.sizeOf_spec]
    omega
  | call _ owner _ arguments =>
    simp only [call.sizeOf_spec]
    obtain rfl | hpart := List.mem_cons.mp hpart
    · omega
    · have hlt := List.sizeOf_lt_of_mem hpart
      omega
  | assign | setStatic | get | set =>
    simp only [parts, List.mem_cons, List.not_mem_nil, or_false] at hpart
    grind [assign.sizeOf_spec, setStatic.sizeOf_spec, get.sizeOf_spec, set.sizeOf_spec]
  | _ => cases hpart

namespace Node

/-- The children of an expression are its parts. -/
theorem children_expr (tree : Expr ι) : (Node.expr tree).children = tree.parts.map .expr := by
  cases tree with
  | callStatic tag type name arguments =>
      cases type <;> simp [children, fields, Expr.fields, Expr.parts, FieldValue.children,
        FieldValue.exprs]
  | _ =>
      simp [children, fields, Expr.fields, Expr.parts, FieldValue.children, FieldValue.expr,
        FieldValue.exprs]

/-- The statements and expressions that a statement is made of. -/
theorem children_stmt (tree : Stmt ι) : (Node.stmt tree).children =
    match tree with
    | .block _ statements => statements.map .stmt
    | .ifElse _ condition body other =>
        .expr condition :: .stmt body :: (other.map .stmt).toList
    | .forLoop _ first condition step body =>
        (first.map .stmt).toList ++ (condition.map .expr).toList ++ (step.map .expr).toList ++
          [.stmt body]
    | .whileLoop _ condition body => [.expr condition, .stmt body]
    | .breakLoop _ | .continueLoop _ => []
    | .declaration _ _ _ value | .returnValue _ value => (value.map .expr).toList
    | .expression _ value => [.expr value] := by
  cases tree with
  | block _ statements => exact List.append_nil _
  | ifElse _ _ _ other => cases other <;> rfl
  | forLoop _ first condition step _ => cases first <;> cases condition <;> cases step <;> rfl
  | declaration _ _ _ value | returnValue _ value => cases value <;> rfl
  | _ => rfl

theorem children_field (decl : Field ι) :
    (Node.field decl).children = (decl.value.map .expr).toList := by
  cases hvalue : decl.value <;> simp [children, fields, hvalue, FieldValue.children,
    FieldValue.optional]

theorem children_stub (stub : MethodStub ι) :
    (Node.stub stub).children = stub.arguments.map .argument := List.append_nil _

theorem children_method (decl : Method ι) :
    (Node.method decl).children = decl.arguments.map .argument ++ [.stmt decl.body] := rfl

theorem children_classDecl (decl : ClassDecl ι) : (Node.classDecl decl).children =
    decl.fields.map .field ++ decl.methods.map .method := by
  simp [children, fields, FieldValue.children]

theorem children_interfaceDecl (decl : InterfaceDecl ι) :
    (Node.interfaceDecl decl).children = decl.stubs.map .stub := List.append_nil _

theorem children_program (program : Program ι) : (Node.program program).children =
    program.classes.map .classDecl ++ program.interfaces.map .interfaceDecl := by
  simp [children, fields, FieldValue.children]

variable {child node root : Node ι}

theorem Within.of_mem (hmem : node ∈ root.children) : node.Within root := .child hmem .refl

/-- What children inherit from their parents, every node has of the root. -/
theorem Within.inherit {property : Node ι → Prop}
    (hchild : ∀ parent, property parent → ∀ child ∈ parent.children, property child)
    (hnode : node.Within root) (hroot : property root) : property node := by
  induction hnode with
  | refl => exact hroot
  | child hmem _ ih => exact ih (hchild _ hroot _ hmem)

/-- What is within a part of an expression is within the expression. -/
theorem Within.of_mem_parts {tree part : Expr ι} (hnode : node.Within (.expr part))
    (hpart : part ∈ tree.parts) : node.Within (.expr tree) := by
  refine .child ?_ hnode
  rw [children_expr]
  exact List.mem_map_of_mem hpart

/-- Only expressions are within expressions. -/
theorem Within.exists_expr {tree : Expr ι} (hnode : node.Within (.expr tree)) :
    ∃ part, node = .expr part := by
  have hchildren (parent : Node ι) : (∃ part, parent = .expr part) →
      ∀ child ∈ parent.children, ∃ part, child = .expr part := by
    rintro ⟨parent, rfl⟩ child hchild
    rw [children_expr] at hchild
    obtain ⟨part, -, rfl⟩ := List.mem_map.mp hchild
    exact ⟨part, rfl⟩
  exact hnode.inherit hchildren ⟨tree, rfl⟩

/-! ## All nodes in one list -/

theorem sizeOf_lt_of_mem_map {α : Type} [SizeOf α] {make : α → Node ι} {members : List α}
    (hmake : ∀ a, sizeOf (make a) = 1 + sizeOf a) (hmem : child ∈ members.map make) :
    sizeOf child < 1 + sizeOf members := by
  obtain ⟨a, ha, rfl⟩ := List.mem_map.mp hmem
  have hlt := List.sizeOf_lt_of_mem ha
  rw [hmake]
  omega

theorem sizeOf_lt_of_mem_stmt {tree : Stmt ι} (hmem : child ∈ (stmt tree).children) :
    sizeOf child < sizeOf (stmt tree) := by
  rw [children_stmt] at hmem
  cases tree with
  | block tag statements =>
      have hlt := sizeOf_lt_of_mem_map stmt.sizeOf_spec hmem
      rw [stmt.sizeOf_spec, Stmt.block.sizeOf_spec]
      omega
  | breakLoop | continueLoop => cases hmem
  | _ =>
    simp only [List.mem_append, List.mem_cons, List.not_mem_nil, or_false, Option.mem_toList,
      Option.map_eq_some_iff] at hmem
    grind [expr.sizeOf_spec, stmt.sizeOf_spec, Option.some.sizeOf_spec, Stmt.ifElse.sizeOf_spec,
      Stmt.forLoop.sizeOf_spec, Stmt.whileLoop.sizeOf_spec, Stmt.declaration.sizeOf_spec,
      Stmt.returnValue.sizeOf_spec, Stmt.expression.sizeOf_spec]

/-- Children are smaller than their parents, so every way down ends. -/
theorem sizeOf_lt_of_mem_children (hmem : child ∈ node.children) : sizeOf child < sizeOf node := by
  cases node with
  | expr tree =>
      rw [children_expr] at hmem
      obtain ⟨part, hpart, rfl⟩ := List.mem_map.mp hmem
      have hlt := Expr.sizeOf_lt_of_mem_parts hpart
      rw [expr.sizeOf_spec, expr.sizeOf_spec]
      omega
  | stmt tree => exact sizeOf_lt_of_mem_stmt hmem
  | argument decl => cases hmem
  | field decl =>
      obtain ⟨value, hvalue, rfl⟩ : ∃ value, decl.value = some value ∧ expr value = child := by
        simpa [children_field] using hmem
      cases decl
      obtain rfl := hvalue
      simp +arith
  | stub decl =>
      have hlt := sizeOf_lt_of_mem_map argument.sizeOf_spec (children_stub decl ▸ hmem)
      have hsize : sizeOf decl.arguments < sizeOf decl := by
        cases decl
        simp +arith
      rw [stub.sizeOf_spec]
      omega
  | method decl =>
      have hsize : sizeOf decl.arguments + sizeOf decl.body < sizeOf decl := by
        cases decl
        simp +arith
      rw [method.sizeOf_spec]
      obtain hmem | hmem := List.mem_append.mp (children_method decl ▸ hmem)
      · have hlt := sizeOf_lt_of_mem_map argument.sizeOf_spec hmem
        omega
      · obtain rfl := List.mem_singleton.mp hmem
        rw [stmt.sizeOf_spec]
        omega
  | classDecl decl =>
      have hsize : sizeOf decl.fields + sizeOf decl.methods < sizeOf decl := by
        cases decl
        simp +arith
      rw [classDecl.sizeOf_spec]
      obtain hmem | hmem := List.mem_append.mp (children_classDecl decl ▸ hmem)
      · have hlt := sizeOf_lt_of_mem_map field.sizeOf_spec hmem
        omega
      · have hlt := sizeOf_lt_of_mem_map method.sizeOf_spec hmem
        omega
  | interfaceDecl decl =>
      have hlt := sizeOf_lt_of_mem_map stub.sizeOf_spec (children_interfaceDecl decl ▸ hmem)
      have hsize : sizeOf decl.stubs < sizeOf decl := by
        cases decl
        simp +arith
      rw [interfaceDecl.sizeOf_spec]
      omega
  | program tree =>
      have hsize : sizeOf tree.classes + sizeOf tree.interfaces < sizeOf tree := by
        cases tree
        simp +arith
      rw [program.sizeOf_spec]
      obtain hmem | hmem := List.mem_append.mp (children_program tree ▸ hmem)
      · have hlt := sizeOf_lt_of_mem_map classDecl.sizeOf_spec hmem
        omega
      · have hlt := sizeOf_lt_of_mem_map interfaceDecl.sizeOf_spec hmem
        omega

/-- The nodes of a tree, parents before children. -/
def nodes (node : Node ι) : List (Node ι) :=
  node :: node.children.attach.flatMap fun child => child.1.nodes
termination_by sizeOf node
decreasing_by exact sizeOf_lt_of_mem_children child.2

theorem nodes_eq (node : Node ι) : node.nodes = node :: node.children.flatMap nodes := by
  rw [nodes]
  simp

/-- The nodes of a tree are those within it. -/
theorem mem_nodes : node ∈ root.nodes ↔ node.Within root := by
  constructor
  · intro hnode
    induction root using nodes.induct with
    | case1 root ih =>
        rw [nodes_eq] at hnode
        obtain rfl | hmem := List.mem_cons.mp hnode
        · exact .refl
        · obtain ⟨child, hchild, hmem⟩ := List.mem_flatMap.mp hmem
          exact .child hchild (ih ⟨child, hchild⟩ hmem)
  · intro hnode
    induction hnode with
    | refl =>
        rw [nodes_eq]
        exact List.mem_cons_self
    | child hmem _ ih =>
        rw [nodes_eq]
        exact List.mem_cons_of_mem _ (List.mem_flatMap.mpr ⟨_, hmem, ih⟩)

end Node

end ClassLang
