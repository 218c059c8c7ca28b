import ClassLang.Proofs.Tree.DeclarationLine
import ClassLang.Proofs.Tree.Outline

/-! # Single lines

Each node is written on one line: words hold no line feed, numbers do not either, and the text of a
literal is quoted. So the lines of a printed tree are those of its outline.
-/

namespace ClassLang

open Outline Scan

variable {ι : Type}

/-! ## What stands in a line -/

theorem isSingle_of_isWord {word : String} (hword : IsWord word) : IsSingle word :=
  fun hmem => absurd (hword _ hmem) (by decide)

theorem isSingle_name {name : String} (hname : IsName name) : IsSingle name :=
  isSingle_of_isWord (isWord_of_isName hname)

theorem isSingle_typename {type : String} (htype : IsTypename type) : IsSingle type :=
  isSingle_of_isWord (isWord_of_isTypename htype)

theorem Access.isSingle_word (access : Access) : IsSingle access.word :=
  isSingle_of_isWord (isWord_access access)

theorem Access.isSingle_modifiers (access : Access) (isStatic : Bool) :
    IsSingle (access.modifiers isStatic) := by
  cases access <;> cases isStatic <;> decide

theorem Operator.isSingle_spelling (operator : Operator) : IsSingle operator.spelling := by
  have hsymbols : ∀ symbol ∈ Symbol.longestFirst, IsSingle symbol.spelling := by decide
  cases operator with
  | conditional => decide
  | symbol symbol => exact hsymbols symbol symbol.mem_longestFirst

theorem isSingle_listed {introduction : String} {names : List String}
    (hintroduction : IsSingle introduction) (hnames : ∀ name ∈ names, IsSingle name) :
    IsSingle (listed introduction names) := by
  have hblank : IsSingle " " := by decide
  unfold listed
  split
  next => decide
  next =>
    have hlist : IsSingle (", ".intercalate names) := isSingle_intercalate (by decide) hnames
    simp [toString_text, hblank, hintroduction, hlist]

theorem Argument.isSingle_inline {arguments : List (Argument ι)}
    (harguments : ∀ a ∈ arguments, (Node.argument a).Proper) : IsSingle (inline arguments) := by
  have htexts : IsSingle (", ".intercalate (arguments.map text)) := by
    refine isSingle_intercalate (by decide) fun line hmem => ?_
    obtain ⟨a, ha, rfl⟩ := List.mem_map.mp hmem
    obtain ⟨htype, hname⟩ := harguments a ha
    have hblank : IsSingle " " := by decide
    simp [text, isSingle_typename htype, hblank, isSingle_name hname]
  have hopening : IsSingle "(" := by decide
  have hclosing : IsSingle ")" := by decide
  exact isSingle_append.mpr ⟨isSingle_append.mpr ⟨hopening, htexts⟩, hclosing⟩

/-! ## Lines of nodes -/

theorem Expr.isSingle_remark {tree : Expr ι} (htree : tree.Proper) : IsSingle tree.remark := by
  have hblank : IsSingle " " := by decide
  have hpoint : IsSingle "." := by decide
  have hempty : IsSingle "" := by decide
  cases tree with
  | this | null => exact hempty
  | bool tag value =>
      rw [remark]
      cases value <;> decide
  | int tag value =>
      refine isSingle_append.mpr ⟨hblank, fun hmem => ?_⟩
      rw [Nat.toString_eq_ofList_toDigits, String.toList_ofList] at hmem
      exact absurd (Decimal.isDigit_toDigits hmem) (by decide)
  | float tag value =>
      exact isSingle_append.mpr ⟨hblank, Decimal.Binary64.newline_not_mem_toString value⟩
  | string tag value =>
      refine isSingle_append.mpr ⟨hblank, ?_⟩
      rw [IsSingle, String.toList_ofList]
      exact Text.newline_not_mem_quoted value.toList
  | operator tag op operands => exact isSingle_append.mpr ⟨hblank, op.isSingle_spelling⟩
  | name | assign | get | set | call =>
    exact isSingle_append.mpr ⟨hblank, isSingle_name htree⟩
  | getStatic | setStatic =>
    obtain ⟨htype, hname⟩ := htree
    simp [remark, hblank, isSingle_typename htype, hpoint, isSingle_name hname]
  | callStatic tag type name arguments =>
      obtain ⟨howner, hname⟩ := htree
      have hwritten : IsSingle (type.getD "None") := by
        cases type with
        | none => decide
        | some owner => exact isSingle_typename (howner owner rfl)
      simp [remark, hblank, hwritten, hpoint, isSingle_name hname]
  | new tag type arguments => exact isSingle_append.mpr ⟨hblank, isSingle_typename htree⟩

theorem Stmt.isSingle_remark {tree : Stmt ι} (htree : tree.Proper) : IsSingle tree.remark := by
  have hempty : IsSingle "" := by decide
  cases tree with
  | declaration tag type name value =>
      obtain ⟨htype, hname⟩ := htree
      have hblank : IsSingle " " := by decide
      have htype : IsSingle type := by
        rcases htype with rfl | htype
        · decide
        · exact isSingle_typename htype
      simp [remark, hblank, htype, isSingle_name hname]
  | _ => exact hempty

namespace Node

variable {node child : Node ι}

theorem isSingle_remark (hnode : node.Proper)
    (harguments : ∀ decl, argument decl ∈ node.children → (argument decl).Proper) :
    IsSingle node.remark := by
  have hblank : IsSingle " " := by decide
  cases node with
  | expr tree => exact Expr.isSingle_remark hnode
  | stmt tree => exact Stmt.isSingle_remark hnode
  | argument decl =>
      obtain ⟨htype, hname⟩ := hnode
      simp [remark, hblank, isSingle_typename htype, isSingle_name hname]
  | field decl =>
      obtain ⟨htype, hname⟩ := hnode
      simp [remark, hblank, Access.isSingle_modifiers, isSingle_typename htype, isSingle_name hname]
  | stub decl =>
      obtain ⟨-, htype, hname⟩ := hnode
      have hinline := @Argument.isSingle_inline _ decl.arguments
        fun a ha => harguments a (by simp [children_stub, ha])
      simp [remark, hblank, Access.isSingle_word, isSingle_typename htype, isSingle_name hname,
        hinline]
  | method decl =>
      obtain ⟨htype, hname, -⟩ := hnode
      have hinline := @Argument.isSingle_inline _ decl.arguments
        fun a ha => harguments a (by simp [children_method, ha])
      simp [remark, hblank, Access.isSingle_modifiers, isSingle_typename htype, isSingle_name hname,
        hinline]
  | classDecl decl =>
      obtain ⟨hname, hbase, hinterfaces⟩ := hnode
      have hextends : IsSingle " extends " := by decide
      have hlisted := @isSingle_listed "implements" _ (by decide)
        fun type hmem => isSingle_typename (hinterfaces type hmem)
      simp [remark, hblank, Access.isSingle_word, isSingle_typename hname, hextends,
        isSingle_typename hbase, hlisted]
  | interfaceDecl decl =>
      obtain ⟨hname, hbases⟩ := hnode
      have hlisted := @isSingle_listed "extends" _ (by decide)
        fun type hmem => isSingle_typename (hbases type hmem)
      simp [remark, hblank, Access.isSingle_word, isSingle_typename hname, hlisted]
  | program tree =>
      rw [remark]
      decide

/-! ## Outlines -/

/-- All nodes of a tree are made as they should be. -/
def ProperAll (root : Node ι) : Prop := ∀ node : Node ι, node.Within root → node.Proper

theorem ProperAll.of_mem_children (hnode : node.ProperAll) (hmem : child ∈ node.children) :
    child.ProperAll :=
  fun _ hwithin => hnode _ (.child hmem hwithin)

theorem ProperAll.isSingle_headline (hnode : node.ProperAll) : IsSingle node.headline := by
  refine isSingle_append.mpr ⟨isSingle_of_isWord node.isWord_sort, ?_⟩
  exact isSingle_remark (hnode node .refl) fun _ hmem => hnode _ (.of_mem hmem)

/-- No line of a proper tree holds a line feed. -/
theorem ProperAll.isSingle_of_mem_outline (hnode : node.ProperAll) :
    ∀ line ∈ node.outline, IsSingle line := by
  induction node using induction_on_lines with
  | step node hinner hotherwise =>
      rw [outline_eq]
      refine List.forall_mem_cons.mpr ⟨hnode.isSingle_headline,
        List.forall_mem_append.mpr ⟨isSingle_below ?_, ?_⟩⟩
      · intro line hmem
        obtain ⟨place, hplace, hline⟩ := List.mem_flatMap.mp hmem
        cases place with
        | none =>
            obtain rfl := List.mem_singleton.mp hline
            decide
        | some child =>
            have hchild := hnode.of_mem_children (mem_children_of_inner hplace)
            exact hinner child hplace hchild line hline
      · cases hother : node.otherwise with
        | none => exact List.forall_mem_nil _
        | some other =>
            have hproper := hnode.of_mem_children (mem_children_of_otherwise hother)
            exact List.forall_mem_cons.mpr
              ⟨by decide, isSingle_below (hotherwise other hother hproper)⟩

/-- All nodes of a tree are legible. -/
def LegibleAll (root : Node ι) : Prop := ∀ node : Node ι, node.Within root → node.Legible

theorem LegibleAll.root (hnode : node.LegibleAll) : node.Legible := hnode node .refl

theorem LegibleAll.properAll (hnode : node.LegibleAll) : node.ProperAll :=
  fun other hwithin => (hnode other hwithin).proper

theorem LegibleAll.of_mem_inner (hnode : node.LegibleAll) (hmem : some child ∈ node.inner) :
    child.LegibleAll :=
  fun _ hwithin => hnode _ (.child (mem_children_of_inner hmem) hwithin)

theorem LegibleAll.of_mem_otherwise (hnode : node.LegibleAll) (hmem : child ∈ node.otherwise) :
    child.LegibleAll :=
  fun _ hwithin => hnode _ (.child (mem_children_of_otherwise hmem) hwithin)

end Node

end ClassLang
