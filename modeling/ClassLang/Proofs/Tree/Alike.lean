import ClassLang.Proofs.Tree.SingleLines

/-! # Alike nodes

Nodes are alike if they say the same in their lines and their children are alike. In one direction
this needs that the nodes are legible.
-/

namespace ClassLang

open Outline

variable {ι κ : Type}

/-! ## Lists and optional values -/

section Related

variable {α β γ δ : Type} {related : γ → δ → Prop} {f : α → γ} {g : β → δ}

theorem rel_map {a : Option α} {b : Option β} :
    Option.Rel related (a.map f) (b.map g) ↔ Option.Rel (fun a b => related (f a) (g b)) a b := by
  cases a <;> cases b <;> simp

theorem forall₂_toList {a : Option γ} {b : Option δ} :
    List.Forall₂ related a.toList b.toList ↔ Option.Rel related a b := by
  cases a <;> cases b <;> simp

/-- Where only the first parts and only the last parts can be related, they are. -/
theorem forall₂_append_iff {as as' : List γ} {bs bs' : List δ}
    (hfront : ∀ a ∈ as, ∀ b ∈ bs', ¬ related a b) (hback : ∀ a ∈ as', ∀ b ∈ bs, ¬ related a b) :
    List.Forall₂ related (as ++ as') (bs ++ bs') ↔
      List.Forall₂ related as bs ∧ List.Forall₂ related as' bs' := by
  constructor
  · intro hall
    induction as generalizing bs with
    | nil =>
        cases bs with
        | nil => exact ⟨.nil, hall⟩
        | cons b bs =>
            cases as' with
            | nil => cases hall
            | cons a as' =>
                cases hall with
                | cons hrelated =>
                    exact absurd hrelated (hback a List.mem_cons_self b List.mem_cons_self)
    | cons a as ih =>
        cases bs with
        | nil =>
            cases bs' with
            | nil => cases hall
            | cons b bs' =>
                cases hall with
                | cons hrelated =>
                    exact absurd hrelated (hfront a List.mem_cons_self b List.mem_cons_self)
        | cons b bs =>
            cases hall with
            | cons hrelated hall =>
                obtain ⟨has, hbs⟩ := ih (fun a ha => hfront a (.tail _ ha))
                  (fun a ha b hb => hback a ha b (.tail _ hb)) hall
                exact ⟨.cons hrelated has, hbs⟩
  · rintro ⟨hall, hall'⟩
    exact List.rel_append hall hall'

end Related

namespace Node

/-! ## Alike nodes -/

/-- Two nodes are the same up to their tags. -/
def Alike : Node ι → Node κ → Prop
  | expr tree, expr other => tree.same other
  | stmt tree, stmt other => tree.same other
  | argument decl, argument other => decl.same other
  | field decl, field other => decl.same other
  | stub decl, stub other => decl.same other
  | method decl, method other => decl.same other
  | classDecl decl, classDecl other => decl.same other
  | interfaceDecl decl, interfaceDecl other => decl.same other
  | program tree, program other => tree.same other
  | _, _ => False

section Alike

variable {tree : Expr ι} {tree' : Expr κ} {statement : Stmt ι} {statement' : Stmt κ}
  {decl : Field ι} {decl' : Field κ} {member : Method ι} {member' : Method κ}
  {type : ClassDecl ι} {type' : ClassDecl κ} {face : InterfaceDecl ι} {face' : InterfaceDecl κ}

@[simp] theorem alike_expr : (expr tree).Alike (expr tree') ↔ tree.same tree' := .rfl

@[simp] theorem alike_stmt : (stmt statement).Alike (stmt statement') ↔ statement.same statement' :=
  .rfl

@[simp] theorem alike_argument {argument : Argument ι} {argument' : Argument κ} :
    (Node.argument argument).Alike (Node.argument argument') ↔ argument.same argument' := .rfl

@[simp] theorem alike_field : (field decl).Alike (field decl') ↔ decl.same decl' := .rfl

@[simp] theorem alike_stub {stub : MethodStub ι} {stub' : MethodStub κ} :
    (Node.stub stub).Alike (Node.stub stub') ↔ stub.same stub' := .rfl

@[simp] theorem alike_method : (method member).Alike (method member') ↔ member.same member' := .rfl

@[simp] theorem alike_classDecl : (classDecl type).Alike (classDecl type') ↔ type.same type' := .rfl

@[simp] theorem alike_interfaceDecl :
    (interfaceDecl face).Alike (interfaceDecl face') ↔ face.same face' := .rfl

@[simp] theorem not_alike_field_method : ¬ (field decl).Alike (method member') := id

@[simp] theorem not_alike_method_field : ¬ (method member).Alike (field decl') := id

@[simp] theorem not_alike_class_interface : ¬ (classDecl type).Alike (interfaceDecl face') := id

@[simp] theorem not_alike_interface_class : ¬ (interfaceDecl face).Alike (classDecl type') := id

end Alike

/-- Two nodes have alike children with lines. -/
structure AlikeBelow (node : Node ι) (other : Node κ) : Prop where
  inner : List.Forall₂ (Option.Rel Alike) node.inner other.inner
  otherwise : Option.Rel Alike node.otherwise other.otherwise

end Node

theorem Expr.Alike.line {tree : Expr ι} {other : Expr κ} (halike : tree.Alike other) :
    tree.sort = other.sort ∧ tree.remark = other.remark ∧
      List.Forall₂ Alike tree.parts other.parts := by
  unfold Alike same at halike
  -- one case for each pair of constructors that can be alike, the last for all others
  split at halike
  case h_17 => cases halike
  all_goals simp_all [sort, remark, parts, sameAll_iff, Alike]

theorem Stmt.Alike.line {tree : Stmt ι} {other : Stmt κ} (halike : tree.Alike other) :
    tree.sort = other.sort ∧ tree.remark = other.remark ∧
      (Node.stmt tree).AlikeBelow (.stmt other) := by
  unfold Alike same at halike
  split at halike
  case h_10 => cases halike
  all_goals refine ⟨rfl, ?_, ?_, ?_⟩
  all_goals simp_all [remark, Node.inner, Node.otherwise, rel_map, forall₂_toList, sameAll_iff,
    sameValue_iff, sameOption_iff]

/-- The data of a statement can be told from its line and what is alike below it. -/
theorem Stmt.alike_of_remark {tree : Stmt ι} {other : Stmt κ} (htree : (Node.stmt tree).Legible)
    (hother : (Node.stmt other).Legible) (hsort : tree.sort = other.sort)
    (hremark : tree.remark = other.remark) (hbelow : (Node.stmt tree).AlikeBelow (.stmt other)) :
    tree.Alike other := by
  obtain ⟨hinner, hotherwise⟩ := hbelow
  cases tree with
  | block tag statements =>
    cases other with
    | block tag' statements' =>
        simpa [Node.inner, Alike, same, sameAll_iff] using hinner
    | _ => simp [sort] at hsort
  | ifElse tag condition body failing =>
    cases other with
    | ifElse tag' condition' body' failing' =>
        simp_all [Node.inner, Node.otherwise, rel_map, Alike, same, sameOption_iff]
    | _ => simp [sort] at hsort
  | forLoop tag first condition step body =>
    cases other with
    | forLoop tag' first' condition' step' body' =>
        simp_all [Node.inner, rel_map, Alike, same, sameOption_iff, sameValue_iff]
    | _ => simp [sort] at hsort
  | whileLoop tag condition body =>
    cases other with
    | whileLoop tag' condition' body' =>
        simpa [Node.inner, Alike, same] using hinner
    | _ => simp [sort] at hsort
  | breakLoop tag =>
    cases other with
    | breakLoop tag' => rfl
    | _ => simp [sort] at hsort
  | continueLoop tag =>
    cases other with
    | continueLoop tag' => rfl
    | _ => simp [sort] at hsort
  | declaration tag type name value =>
    cases other with
    | declaration tag' type' name' value' =>
        obtain ⟨htype, hname⟩ := declared_of_remark htree.proper.1 hother.proper.1 hremark
        simp_all [Node.inner, forall₂_toList, Alike, same, sameValue_iff]
    | _ => simp [sort] at hsort
  | returnValue tag value =>
    cases other with
    | returnValue tag' value' =>
        simp_all [Node.inner, forall₂_toList, Alike, same, sameValue_iff]
    | _ => simp [sort] at hsort
  | expression tag value =>
    cases other with
    | expression tag' value' => simpa [Node.inner, Alike, same] using hinner
    | _ => simp [sort] at hsort

theorem Argument.inline_congr {arguments : List (Argument ι)} {arguments' : List (Argument κ)}
    (hsame : sameMembers same arguments arguments') : inline arguments = inline arguments' := by
  have htexts : arguments.map text = arguments'.map text := by
    rw [← List.forall₂_eq_eq_eq, List.forall₂_map_left_iff, List.forall₂_map_right_iff]
    refine (sameMembers_iff.mp hsame).imp fun a b halike => ?_
    simp only [same, Bool.and_eq_true, beq_iff_eq] at halike
    rw [text, text, halike.1, halike.2]
  change "(" ++ ", ".intercalate (arguments.map text) ++ ")" = _
  rw [htexts]
  rfl

namespace Node

variable {node : Node ι} {other : Node κ}

/-! ## What is alike below a line -/

theorem alikeBelow_iff (hnode : node.otherwise = none) (hother : other.otherwise = none) :
    node.AlikeBelow other ↔ List.Forall₂ (Option.Rel Alike) node.inner other.inner := by
  refine ⟨AlikeBelow.inner, fun hinner => ⟨hinner, ?_⟩⟩
  rw [hnode, hother]
  exact .none

theorem alikeBelow_expr {tree : Expr ι} {other : Expr κ} :
    (expr tree).AlikeBelow (expr other) ↔ List.Forall₂ Expr.Alike tree.parts other.parts := by
  rw [alikeBelow_iff rfl rfl]
  simp [inner]

theorem alikeBelow_field {decl : Field ι} {other : Field κ} :
    (field decl).AlikeBelow (field other) ↔ Option.Rel Expr.Alike decl.value other.value := by
  rw [alikeBelow_iff rfl rfl]
  simp [inner, forall₂_toList]

theorem alikeBelow_method {decl : Method ι} {other : Method κ} :
    (method decl).AlikeBelow (method other) ↔ decl.body.Alike other.body := by
  rw [alikeBelow_iff rfl rfl]
  simp [inner]

theorem alikeBelow_classDecl {decl : ClassDecl ι} {other : ClassDecl κ} :
    (classDecl decl).AlikeBelow (classDecl other) ↔
      sameMembers Field.same decl.fields other.fields ∧
        sameMembers Method.same decl.methods other.methods := by
  rw [alikeBelow_iff rfl rfl, inner, inner,
    forall₂_append_iff (by simp) (by simp), sameMembers_iff, sameMembers_iff]
  simp

theorem alikeBelow_interfaceDecl {decl : InterfaceDecl ι} {other : InterfaceDecl κ} :
    (interfaceDecl decl).AlikeBelow (interfaceDecl other) ↔
      sameMembers MethodStub.same decl.stubs other.stubs := by
  rw [alikeBelow_iff rfl rfl, sameMembers_iff]
  simp [inner]

theorem alikeBelow_program {tree : Program ι} {other : Program κ} :
    (program tree).AlikeBelow (program other) ↔ tree.same other := by
  rw [alikeBelow_iff rfl rfl, inner, inner,
    forall₂_append_iff (by simp) (by simp), Program.same, Bool.and_eq_true,
    sameMembers_iff, sameMembers_iff]
  simp [and_comm]

/-! ## Alike nodes and their lines -/

/-- Alike nodes have the same line and alike children. -/
theorem Alike.line (halike : node.Alike other) :
    node.headline = other.headline ∧ node.AlikeBelow other := by
  cases node with
  | expr tree =>
    cases other with
    | expr other =>
        obtain ⟨hsort, hremark, hparts⟩ := Expr.Alike.line halike
        exact ⟨congrArg₂ _ hsort hremark, alikeBelow_expr.mpr hparts⟩
    | _ => cases halike
  | stmt tree =>
    cases other with
    | stmt other =>
        obtain ⟨hsort, hremark, hbelow⟩ := Stmt.Alike.line halike
        exact ⟨congrArg₂ _ hsort hremark, hbelow⟩
    | _ => cases halike
  | argument decl =>
    cases other with
    | argument other =>
        simp only [alike_argument, Argument.same, Bool.and_eq_true, beq_iff_eq] at halike
        refine ⟨?_, .nil, .none⟩
        simp [headline, sort, remark, halike]
    | _ => cases halike
  | field decl =>
    cases other with
    | field other =>
        simp only [alike_field, Field.same, Bool.and_eq_true, beq_iff_eq] at halike
        obtain ⟨hdata, hvalue⟩ := halike
        refine ⟨?_, alikeBelow_field.mpr (Stmt.sameValue_iff.mp hvalue)⟩
        simp [headline, sort, remark, hdata]
    | _ => cases halike
  | stub decl =>
    cases other with
    | stub other =>
        simp only [alike_stub, MethodStub.same, Bool.and_eq_true, beq_iff_eq] at halike
        obtain ⟨hdata, harguments⟩ := halike
        refine ⟨?_, .nil, .none⟩
        simp [headline, sort, remark, hdata, Argument.inline_congr harguments]
    | _ => cases halike
  | method decl =>
    cases other with
    | method other =>
        simp only [alike_method, Method.same, Bool.and_eq_true, beq_iff_eq] at halike
        obtain ⟨⟨hdata, harguments⟩, hbody⟩ := halike
        refine ⟨?_, alikeBelow_method.mpr hbody⟩
        simp [headline, sort, remark, hdata, Argument.inline_congr harguments]
    | _ => cases halike
  | classDecl decl =>
    cases other with
    | classDecl other =>
        simp only [alike_classDecl, ClassDecl.same, Bool.and_eq_true, beq_iff_eq] at halike
        obtain ⟨⟨hdata, hfields⟩, hmethods⟩ := halike
        refine ⟨?_, alikeBelow_classDecl.mpr ⟨hfields, hmethods⟩⟩
        simp [headline, sort, remark, hdata]
    | _ => cases halike
  | interfaceDecl decl =>
    cases other with
    | interfaceDecl other =>
        simp only [alike_interfaceDecl, InterfaceDecl.same, Bool.and_eq_true, beq_iff_eq] at halike
        obtain ⟨hdata, hstubs⟩ := halike
        refine ⟨?_, alikeBelow_interfaceDecl.mpr hstubs⟩
        simp [headline, sort, remark, hdata]
    | _ => cases halike
  | program tree =>
    cases other with
    | program other => exact ⟨rfl, alikeBelow_program.mpr halike⟩
    | _ => cases halike

/-- Nodes are alike if their lines are the same and their children are alike. -/
theorem Alike.of_line (hnode : node.Legible) (hother : other.Legible)
    (hline : node.headline = other.headline) (hbelow : node.AlikeBelow other) :
    node.Alike other := by
  obtain ⟨hsort, hremark⟩ := headline_inj hline
  have hindex := ctorIdx_eq_of_sort hsort
  cases node with
  | expr tree =>
    cases other with
    | expr other =>
        exact Expr.alike_of_remark hnode hother hsort hremark (alikeBelow_expr.mp hbelow)
    | _ => cases hindex
  | stmt tree =>
    cases other with
    | stmt other => exact Stmt.alike_of_remark hnode hother hsort hremark hbelow
    | _ => cases hindex
  | argument decl =>
    cases other with
    | argument other => exact Argument.same_of_remark hnode.proper hother.proper hremark
    | _ => cases hindex
  | field decl =>
    cases other with
    | field other =>
        exact Field.same_of_remark hnode hother hremark (alikeBelow_field.mp hbelow)
    | _ => cases hindex
  | stub decl =>
    cases other with
    | stub other => exact MethodStub.same_of_remark hnode hother hremark
    | _ => cases hindex
  | method decl =>
    cases other with
    | method other =>
        exact Method.same_of_remark hnode hother hremark (alikeBelow_method.mp hbelow)
    | _ => cases hindex
  | classDecl decl =>
    cases other with
    | classDecl other =>
        obtain ⟨hfields, hmethods⟩ := alikeBelow_classDecl.mp hbelow
        exact ClassDecl.same_of_remark hnode hother hremark hfields hmethods
    | _ => cases hindex
  | interfaceDecl decl =>
    cases other with
    | interfaceDecl other =>
        exact InterfaceDecl.same_of_remark hnode hother hremark (alikeBelow_interfaceDecl.mp hbelow)
    | _ => cases hindex
  | program tree =>
    cases other with
    | program other => exact alikeBelow_program.mp hbelow
    | _ => cases hindex

end Node

end ClassLang
