import ClassLang.Proofs.Syntax.Declaration
import ClassLang.Proofs.Tree.Within

/-! # The phrases of nodes

Each node of a tree stands for a stretch of the tokens that the tree stands for, and this stretch
is a phrase of the sort of the node. The class around is the same for a whole class.
-/

namespace ClassLang.Syntax

variable {enclosing : Option String} {ts : List Token}

/-! ## Lists -/

/-- What is a stretch of a stretch is one of the whole. -/
theorem exists_stretch_trans {us : List Token} {property : List Token → Prop}
    (hstretch : ts <:+: us) (hexists : ∃ vs, vs <:+: ts ∧ property vs) :
    ∃ vs, vs <:+: us ∧ property vs := by
  obtain ⟨vs, hvs, hproperty⟩ := hexists
  exact ⟨vs, hvs.trans hstretch, hproperty⟩

section Lists

variable {α : Type} {item : List Token → α → Prop} {values : List α} {value : α}

theorem Sequence.exists_stretch (hsequence : Sequence item ts values) (hmem : value ∈ values) :
    ∃ us, us <:+: ts ∧ item us value := by
  induction hsequence with
  | nil => cases hmem
  | @cons us _ vs _ hfirst _ ih =>
      rcases List.mem_cons.mp hmem with rfl | hmem
      · exact ⟨us, List.infix_append [] us vs, hfirst⟩
      · exact exists_stretch_trans (List.suffix_append us vs).isInfix (ih hmem)

theorem CommaSeparated.exists_stretch (hseparated : CommaSeparated item ts values)
    (hmem : value ∈ values) : ∃ us, us <:+: ts ∧ item us value := by
  induction hseparated with
  | @single us _ hfirst =>
      obtain rfl := List.mem_singleton.mp hmem
      exact ⟨us, List.infix_rfl, hfirst⟩
  | @more us _ comma vs _ hfirst _ _ ih =>
      rcases List.mem_cons.mp hmem with rfl | hmem
      · exact ⟨us, List.infix_append [] us (comma :: vs), hfirst⟩
      · exact exists_stretch_trans ⟨us ++ [comma], [], by simp⟩ (ih hmem)

theorem Parenthesized.exists_stretch (hparenthesized : Parenthesized item ts values)
    (hmem : value ∈ values) : ∃ us, us <:+: ts ∧ item us value := by
  cases hparenthesized with
  | empty => cases hmem
  | @items opening us _ closing _ hitems =>
      exact exists_stretch_trans ⟨[opening], [closing], rfl⟩ (hitems.exists_stretch hmem)

end Lists

/-! ## Expressions -/

/-- The tree of the phrase, if it has one, has the property. -/
def Phrase.Holds (property : Expr Token → Prop) : Phrase → Prop
  | .assignment tree | .conditional tree | .binary _ tree | .unary tree | .suffixed tree
  | .member tree | .primary tree => property tree
  | .arguments _ | .list _ => True

namespace Derives

variable {tree : Expr Token}

theorem isExpression_of_binary {precedence : Nat} (hle : 1 ≤ precedence)
    (hderives : Derives enclosing (.binary precedence tree) ts) : IsExpression enclosing ts tree :=
  (hderives.looser hle).ofBinary.ofConditional

theorem isExpression_of_unary (hderives : Derives enclosing (.unary tree) ts) :
    IsExpression enclosing ts tree := hderives.ofUnary.isExpression_of_binary (by decide)

theorem isExpression_of_suffixed (hderives : Derives enclosing (.suffixed tree) ts) :
    IsExpression enclosing ts tree := hderives.ofSuffixed.isExpression_of_unary

theorem isExpression_of_member (hderives : Derives enclosing (.member tree) ts) :
    IsExpression enclosing ts tree := hderives.ofMember.isExpression_of_suffixed

theorem isExpression_of_argument {trees : List (Expr Token)}
    (hderives : Derives enclosing (.arguments trees) ts) (hmem : tree ∈ trees) :
    ∃ us, us <:+: ts ∧ IsExpression enclosing us tree :=
  (arguments_iff.mp hderives).exists_stretch hmem

/-- The parts of an expression are expressions, of stretches of its tokens. -/
theorem parts {phrase : Phrase} (hderives : Derives enclosing phrase ts) :
    phrase.Holds fun tree =>
      ∀ part ∈ tree.parts, ∃ us, us <:+: ts ∧ IsExpression enclosing us part := by
  induction hderives with
  | ofConditional _ ih | ofBinary _ ih | ofTighter _ ih | ofUnary _ ih | ofSuffixed _ ih
  | ofMember _ ih | ofPrimary _ ih => exact ih
  | this | true | false | null | int | float | string | staticField | name =>
      intro part hpart
      cases hpart
  | noArguments | someArguments | single | more => trivial
  | @assignName _ _ _ us operator vs _ _ hvalue | @assignStatic _ _ _ _ us operator vs _ _ hvalue =>
      exact List.forall_mem_singleton.mpr ⟨vs, ⟨us ++ [operator], [], by simp⟩, hvalue⟩
  | @assignField _ _ _ _ us operator vs _ _ hvalue ihtarget =>
      -- the owner is a part of the target
      have howner := exists_stretch_trans (List.prefix_append us (operator :: vs)).isInfix
        (ihtarget _ (List.mem_singleton_self _))
      exact List.forall_mem_cons.mpr ⟨howner, List.forall_mem_singleton.mpr
        ⟨vs, ⟨us ++ [operator], [], by simp⟩, hvalue⟩⟩
  | @assignCompound _ _ us operator _ vs _ htarget _ _ hvalue =>
      exact List.forall_mem_cons.mpr ⟨⟨us, (List.prefix_append _ _).isInfix, htarget.ofConditional⟩,
        List.forall_mem_singleton.mpr ⟨vs, ⟨us ++ [operator], [], by simp⟩, hvalue⟩⟩
  | @choice _ _ _ us question vs colon ws hcondition _ hholds _ hfails =>
      have hcondition := hcondition.isExpression_of_binary (Nat.le_refl 1)
      exact List.forall_mem_cons.mpr
        ⟨⟨us, ⟨[], question :: vs ++ colon :: ws, by simp⟩, hcondition⟩,
          List.forall_mem_cons.mpr ⟨⟨vs, ⟨us ++ [question], colon :: ws, by simp⟩, hholds⟩,
            List.forall_mem_singleton.mpr
              ⟨ws, ⟨us ++ question :: vs ++ [colon], [], by simp⟩, hfails.ofConditional⟩⟩⟩
  | @join precedence _ _ us operator _ vs hleft _ hsymbol hright =>
      have hprecedence : 1 ≤ precedence := by
        cases precedence with
        | zero => cases hsymbol
        | succ => exact Nat.le_add_left 1 _
      have hleft := hleft.isExpression_of_binary hprecedence
      have hright := hright.isExpression_of_binary (Nat.le_add_left 1 precedence)
      exact List.forall_mem_cons.mpr ⟨⟨us, (List.prefix_append _ _).isInfix, hleft⟩,
        List.forall_mem_singleton.mpr ⟨vs, ⟨us ++ [operator], [], by simp⟩, hright⟩⟩
  | @leading _ operator _ us _ _ hoperand =>
      exact List.forall_mem_singleton.mpr
        ⟨us, (List.suffix_cons operator us).isInfix, hoperand.isExpression_of_unary⟩
  | @trailing _ us _ _ hoperand =>
      exact List.forall_mem_singleton.mpr
        ⟨us, (List.prefix_append _ _).isInfix, hoperand.isExpression_of_suffixed⟩
  | @field _ us _ _ howner =>
      exact List.forall_mem_singleton.mpr
        ⟨us, (List.prefix_append _ _).isInfix, howner.isExpression_of_member⟩
  | @call _ us dot name _ vs howner _ _ harguments =>
      refine List.forall_mem_cons.mpr
        ⟨⟨us, (List.prefix_append _ _).isInfix, howner.isExpression_of_member⟩, ?_⟩
      intro part hpart
      exact exists_stretch_trans ⟨us ++ [dot, name], [], by simp⟩
        (harguments.isExpression_of_argument hpart)
  | @parenthesized opening _ us closing _ _ _ ih =>
      intro part hpart
      exact exists_stretch_trans ⟨[opening], [closing], rfl⟩ (ih part hpart)
  | @staticCall type dot name _ us _ _ _ harguments =>
      intro part hpart
      exact exists_stretch_trans (List.suffix_append [type, dot, name] us).isInfix
        (harguments.isExpression_of_argument hpart)
  | @new word type _ us _ _ _ harguments =>
      intro part hpart
      exact exists_stretch_trans (List.suffix_append [word, type] us).isInfix
        (harguments.isExpression_of_argument hpart)
  | @ownCall name _ us _ harguments =>
      intro part hpart
      exact exists_stretch_trans (List.suffix_cons name us).isInfix
        (harguments.isExpression_of_argument hpart)

end Derives

/-! ## Nodes -/

/-- The tokens are the phrase that the node stands for. All of a class or an interface has it for
the enclosing one. -/
inductive IsPhrase (enclosing : Option String) : List Token → Node Token → Prop
  | expr {ts tree} : IsExpression enclosing ts tree → IsPhrase enclosing ts (.expr tree)
  | stmt {ts tree} : DerivesStmt enclosing (.statement tree) ts → IsPhrase enclosing ts (.stmt tree)
  /-- The first step of a loop, which has no semicolon of its own. -/
  | simple {ts tree} : IsSimple enclosing ts tree → IsPhrase enclosing ts (.stmt tree)
  | argument {ts decl} : IsArgument ts decl → IsPhrase enclosing ts (.argument decl)
  | field {ts decl} : IsField enclosing ts decl → IsPhrase enclosing ts (.field decl)
  | stub {ts decl} : IsStub ts decl → IsPhrase enclosing ts (.stub decl)
  | method {ts decl} : IsMethod enclosing ts decl → IsPhrase enclosing ts (.method decl)
  | classDecl {ts decl} : IsClass ts decl → enclosing = some decl.name →
      IsPhrase enclosing ts (.classDecl decl)
  | interfaceDecl {ts decl} : IsInterface ts decl → enclosing = some decl.name →
      IsPhrase enclosing ts (.interfaceDecl decl)

/-- The node stands for a phrase within the tokens. -/
def HasPhrase (enclosing : Option String) (ts : List Token) (node : Node Token) : Prop :=
  ∃ us, us <:+: ts ∧ IsPhrase enclosing us node

variable {child : Node Token}

theorem HasPhrase.mono {us : List Token} (hphrase : HasPhrase enclosing ts child)
    (hstretch : ts <:+: us) : HasPhrase enclosing us child := exists_stretch_trans hstretch hphrase

theorem IsPhrase.hasPhrase (hphrase : IsPhrase enclosing ts child) :
    HasPhrase enclosing ts child := ⟨ts, List.infix_rfl, hphrase⟩

theorem IsPhrase.isExpression {tree : Expr Token} (hphrase : IsPhrase enclosing ts (.expr tree)) :
    IsExpression enclosing ts tree := by
  cases hphrase with
  | expr hexpression => exact hexpression

theorem IsFirstValue.hasPhrase {value : Option (Expr Token)}
    (hvalue : IsFirstValue enclosing ts value) {child : Expr Token} (hchild : child ∈ value) :
    HasPhrase enclosing ts (.expr child) := by
  cases hvalue with
  | absent => cases hchild
  | @present equals us _ _ htree =>
      obtain rfl := Option.some.inj hchild
      exact ⟨us, (List.suffix_cons equals us).isInfix, .expr htree⟩

theorem Optionally.hasPhrase {α : Type} {item : List Token → α → Prop} {value : Option α}
    (hvalue : Optionally item ts value) {node : α → Node Token}
    (hitem : ∀ us tree, item us tree → IsPhrase enclosing us (node tree)) {tree : α}
    (htree : tree ∈ value) : HasPhrase enclosing ts (node tree) := by
  cases hvalue with
  | absent => cases htree
  | present hpresent =>
      obtain rfl := Option.some.inj htree
      exact (hitem _ _ hpresent).hasPhrase

/-- Expressions in a simple statement. -/
theorem IsSimple.hasPhrase {tree : Stmt Token} (hsimple : IsSimple enclosing ts tree)
    (hchild : child ∈ (Node.stmt tree).children) : HasPhrase enclosing ts child := by
  rw [Node.children_stmt] at hchild
  cases hsimple with
  | @typed first name us value _ _ hvalue | @untyped first name us value _ _ hvalue =>
      rw [Option.mem_toList] at hchild
      obtain ⟨tree, htree, rfl⟩ := Option.map_eq_some_iff.mp hchild
      exact (hvalue.hasPhrase htree).mono (List.suffix_append [first, name] us).isInfix
  | expression hexpression =>
      obtain rfl := List.mem_singleton.mp hchild
      exact (IsPhrase.expr hexpression).hasPhrase

namespace DerivesStmt

variable {tree : Stmt Token}

theorem hasPhrase_block (hblock : DerivesStmt enclosing (.block tree) ts)
    (hchild : child ∈ (Node.stmt tree).children) : HasPhrase enclosing ts child := by
  rw [Node.children_stmt] at hchild
  cases hblock with
  | @block opening _ us closing _ hstatements =>
      obtain ⟨statement, hmem, rfl⟩ := List.mem_map.mp hchild
      obtain ⟨vs, hstretch, hstatement⟩ := (sequence_iff.mp hstatements).exists_stretch hmem
      exact ⟨vs, hstretch.trans ⟨[opening], [closing], rfl⟩, .stmt hstatement⟩

/-- A condition in parentheses behind a word, and a body. -/
theorem hasPhrase_guarded {word opening closing : Token} {us vs : List Token}
    {condition : Expr Token} {body : Stmt Token} (hcondition : IsExpression enclosing us condition)
    (hbody : DerivesStmt enclosing (.block body) vs)
    (hchild : child ∈ [Node.expr condition, .stmt body]) :
    HasPhrase enclosing (word :: opening :: us ++ closing :: vs) child := by
  rcases List.mem_cons.mp hchild with rfl | hchild
  · exact ⟨us, ⟨[word, opening], closing :: vs, by simp⟩, .expr hcondition⟩
  · obtain rfl := List.mem_singleton.mp hchild
    exact ⟨vs, ⟨word :: opening :: us ++ [closing], [], by simp⟩, .stmt hbody.ofBlock⟩

/-- The same, and what is done otherwise. -/
theorem hasPhrase_else {word opening closing elseWord : Token} {us vs ws : List Token}
    {condition : Expr Token} {body other : Stmt Token}
    (hcondition : IsExpression enclosing us condition)
    (hbody : DerivesStmt enclosing (.block body) vs)
    (hother : DerivesStmt enclosing (.statement other) ws)
    (hchild : child ∈ [Node.expr condition, .stmt body] ++ [.stmt other]) :
    HasPhrase enclosing (word :: opening :: us ++ closing :: vs ++ elseWord :: ws) child := by
  rcases List.mem_append.mp hchild with hchild | hchild
  · exact (hasPhrase_guarded hcondition hbody hchild).mono (List.prefix_append _ _).isInfix
  · obtain rfl := List.mem_singleton.mp hchild
    exact ⟨ws, ⟨word :: opening :: us ++ closing :: vs ++ [elseWord], [], by simp⟩, .stmt hother⟩

theorem hasPhrase_choice (hchoice : DerivesStmt enclosing (.choice tree) ts)
    (hchild : child ∈ (Node.stmt tree).children) : HasPhrase enclosing ts child := by
  rw [Node.children_stmt] at hchild
  cases hchoice with
  | onlyIf _ _ hcondition _ hbody => exact hasPhrase_guarded hcondition hbody hchild
  | elseBlock _ _ hcondition _ hbody _ hother =>
      exact hasPhrase_else hcondition hbody hother.ofBlock hchild
  | elseIf _ _ hcondition _ hbody _ hother =>
      exact hasPhrase_else hcondition hbody hother.ofChoice hchild

/-- The expressions and statements that a statement is made of. -/
theorem hasPhrase (hstatement : DerivesStmt enclosing (.statement tree) ts)
    (hchild : child ∈ (Node.stmt tree).children) : HasPhrase enclosing ts child := by
  cases hstatement with
  | ofBlock hblock => exact hblock.hasPhrase_block hchild
  | ofChoice hchoice => exact hchoice.hasPhrase_choice hchild
  | ofSimple hsimple =>
      exact (hsimple.hasPhrase hchild).mono (List.prefix_append _ _).isInfix
  | whileLoop _ _ hcondition _ hbody =>
      rw [Node.children_stmt] at hchild
      exact hasPhrase_guarded hcondition hbody hchild
  | @forLoop word opening _ us semicolon _ vs semicolon' _ ws closing _ xs _ _ hfirst _ hcondition _
      hstep _ hbody =>
      simp only [Node.children_stmt, List.mem_append, Option.mem_toList, Option.map_eq_some_iff,
        List.mem_singleton, or_assoc] at hchild
      rcases hchild with ⟨first, hmem, rfl⟩ | ⟨condition, hmem, rfl⟩ | ⟨step, hmem, rfl⟩ | rfl
      · exact (hfirst.hasPhrase (fun _ _ => .simple) hmem).mono ⟨[word, opening],
          semicolon :: vs ++ semicolon' :: ws ++ closing :: xs, by simp⟩
      · exact (hcondition.hasPhrase (fun _ _ => .expr) hmem).mono
          ⟨word :: opening :: us ++ [semicolon], semicolon' :: ws ++ closing :: xs, by simp⟩
      · exact (hstep.hasPhrase (fun _ _ => .expr) hmem).mono
          ⟨word :: opening :: us ++ semicolon :: vs ++ [semicolon'], closing :: xs, by simp⟩
      · exact ⟨xs, ⟨word :: opening :: us ++ semicolon :: vs ++ semicolon' :: ws ++ [closing], [],
          by simp⟩, .stmt hbody.ofBlock⟩
  | @returnValue word us _ semicolon _ hvalue =>
      simp only [Node.children_stmt, Option.mem_toList, Option.map_eq_some_iff] at hchild
      obtain ⟨value, hmem, rfl⟩ := hchild
      exact (hvalue.hasPhrase (fun _ _ => .expr) hmem).mono ⟨[word], [semicolon], rfl⟩
  | breakLoop | continueLoop => cases hchild

end DerivesStmt

/-! ## Declarations -/

theorem AreMembers.hasPhrase {fields : List (Field Token)} {methods : List (Method Token)}
    (hmembers : AreMembers enclosing ts fields methods) :
    ∀ child ∈ fields.map Node.field ++ methods.map Node.method, HasPhrase enclosing ts child := by
  induction hmembers with
  | nil =>
      intro child hchild
      cases hchild
  | @field us _ vs _ _ hfield _ ih =>
      intro child hchild
      rcases List.mem_cons.mp hchild with rfl | hchild
      · exact ⟨us, (List.prefix_append us vs).isInfix, .field hfield⟩
      · exact (ih child hchild).mono (List.suffix_append us vs).isInfix
  | @method us _ vs _ _ hmethod _ ih =>
      intro child hchild
      rw [List.map_cons, List.mem_append, List.mem_cons] at hchild
      rcases hchild with hchild | rfl | hchild
      · exact (ih child (List.mem_append_left _ hchild)).mono (List.suffix_append us vs).isInfix
      · exact ⟨us, (List.prefix_append us vs).isInfix, .method hmethod⟩
      · exact (ih child (List.mem_append_right _ hchild)).mono (List.suffix_append us vs).isInfix

/-- The children of a node with a phrase have phrases, all within it. -/
theorem IsPhrase.of_mem_children {node : Node Token} (hphrase : IsPhrase enclosing ts node)
    (hchild : child ∈ node.children) : HasPhrase enclosing ts child := by
  cases hphrase with
  | expr hexpression =>
      rw [Node.children_expr] at hchild
      obtain ⟨part, hpart, rfl⟩ := List.mem_map.mp hchild
      obtain ⟨us, hstretch, hexpression⟩ := Derives.parts hexpression part hpart
      exact ⟨us, hstretch, .expr hexpression⟩
  | stmt hstatement => exact hstatement.hasPhrase hchild
  | simple hsimple => exact hsimple.hasPhrase hchild
  | argument => cases hchild
  | field hfield =>
      rw [Node.children_field, Option.mem_toList] at hchild
      obtain ⟨value, hvalue, rfl⟩ := Option.map_eq_some_iff.mp hchild
      cases hfield with
      | @mk us _ vs _ type name ws _ semicolon _ _ _ _ hfirst =>
          exact (hfirst.hasPhrase hvalue).mono ⟨us ++ vs ++ [type, name], [semicolon], by simp⟩
  | stub hstub =>
      rw [Node.children_stub] at hchild
      obtain ⟨argument, hmem, rfl⟩ := List.mem_map.mp hchild
      cases hstub with
      | @mk us type name _ vs semicolon _ _ _ harguments =>
          obtain ⟨ws, hstretch, hargument⟩ := harguments.exists_stretch hmem
          exact ⟨ws, hstretch.trans ⟨us ++ [type, name], [semicolon], by simp⟩, .argument hargument⟩
  | method hmethod =>
      rw [Node.children_method] at hchild
      cases hmethod with
      | @mk us _ vs _ type name ws _ xs _ _ _ _ _ harguments hbody =>
          rcases List.mem_append.mp hchild with hchild | hchild
          · obtain ⟨argument, hmem, rfl⟩ := List.mem_map.mp hchild
            obtain ⟨inner, hstretch, hargument⟩ := harguments.exists_stretch hmem
            exact ⟨inner, hstretch.trans ⟨us ++ vs ++ [type, name], xs, by simp⟩,
              .argument hargument⟩
          · obtain rfl := List.mem_singleton.mp hchild
            exact ⟨xs, (List.suffix_append _ xs).isInfix, .stmt hbody.ofBlock⟩
  | classDecl hclass henclosing =>
      rw [Node.children_classDecl] at hchild
      cases hclass with
      | @mk us _ word name vs _ ws _ opening xs _ _ closing _ _ _ _ _ _ hmembers =>
          have hstretch : xs <:+: us ++ word :: name :: vs ++ ws ++ opening :: xs ++ [closing] :=
            ⟨us ++ word :: name :: vs ++ ws ++ [opening], [closing], by simp⟩
          subst henclosing
          exact (hmembers.hasPhrase child hchild).mono hstretch
  | interfaceDecl hinterface =>
      rw [Node.children_interfaceDecl] at hchild
      obtain ⟨stub, hmem, rfl⟩ := List.mem_map.mp hchild
      cases hinterface with
      | @mk us _ word name vs _ opening ws _ closing _ _ _ _ _ hstubs =>
          obtain ⟨inner, hstretch, hstub⟩ := hstubs.exists_stretch hmem
          exact ⟨inner, hstretch.trans
            ⟨us ++ word :: name :: vs ++ [opening], [closing], by simp⟩, .stub hstub⟩

/-- All nodes within a node that has a phrase have phrases within it. -/
theorem HasPhrase.within {node root : Node Token} (hroot : HasPhrase enclosing ts root)
    (hnode : node.Within root) : HasPhrase enclosing ts node := by
  refine hnode.inherit (fun parent hparent child hchild => ?_) hroot
  obtain ⟨us, hstretch, hphrase⟩ := hparent
  exact (hphrase.of_mem_children hchild).mono hstretch

/-- The node has a phrase in a class or an interface of which the name is among the tokens. -/
def HasDeclaredPhrase (ts : List Token) (node : Node Token) : Prop :=
  ∃ name ∈ ts, name.kind = .typename ∧ HasPhrase (some name.payload) ts node

theorem HasDeclaredPhrase.mono {us : List Token} (hphrase : HasDeclaredPhrase ts child)
    (hstretch : ts <:+: us) : HasDeclaredPhrase us child := by
  obtain ⟨name, hname, hkind, hphrase⟩ := hphrase
  exact ⟨name, hstretch.subset hname, hkind, hphrase.mono hstretch⟩

theorem IsClass.hasDeclaredPhrase {decl : ClassDecl Token} (hclass : IsClass ts decl) :
    HasDeclaredPhrase ts (.classDecl decl) := by
  have hphrase : HasPhrase (some decl.name) ts (.classDecl decl) :=
    (IsPhrase.classDecl hclass rfl).hasPhrase
  cases hclass with
  | @mk _ _ _ name _ _ _ _ _ _ _ _ _ _ _ hname => exact ⟨name, by simp, hname, hphrase⟩

theorem IsInterface.hasDeclaredPhrase {decl : InterfaceDecl Token}
    (hinterface : IsInterface ts decl) : HasDeclaredPhrase ts (.interfaceDecl decl) := by
  have hphrase : HasPhrase (some decl.name) ts (.interfaceDecl decl) :=
    (IsPhrase.interfaceDecl hinterface rfl).hasPhrase
  cases hinterface with
  | @mk _ _ _ name _ _ _ _ _ _ _ _ hname => exact ⟨name, by simp, hname, hphrase⟩

theorem AreDeclarations.hasDeclaredPhrase {classes : List (ClassDecl Token)}
    {interfaces : List (InterfaceDecl Token)} (hdecls : AreDeclarations ts classes interfaces) :
    ∀ child ∈ classes.map Node.classDecl ++ interfaces.map Node.interfaceDecl,
      HasDeclaredPhrase ts child := by
  induction hdecls with
  | nil =>
      intro child hchild
      cases hchild
  | @classDecl us _ vs _ _ hclass _ ih =>
      intro child hchild
      rcases List.mem_cons.mp hchild with rfl | hchild
      · exact hclass.hasDeclaredPhrase.mono (List.prefix_append us vs).isInfix
      · exact (ih child hchild).mono (List.suffix_append us vs).isInfix
  | @interfaceDecl us _ vs _ _ hinterface _ ih =>
      intro child hchild
      rw [List.map_cons, List.mem_append, List.mem_cons] at hchild
      rcases hchild with hchild | rfl | hchild
      · exact (ih child (List.mem_append_left _ hchild)).mono (List.suffix_append us vs).isInfix
      · exact hinterface.hasDeclaredPhrase.mono (List.prefix_append us vs).isInfix
      · exact (ih child (List.mem_append_right _ hchild)).mono (List.suffix_append us vs).isInfix

/-- In a program, every node but the program has a phrase in the class or the interface that it
belongs to. -/
theorem IsProgram.hasPhrase {last : Token} {program : Program Token} {node : Node Token}
    (hprogram : IsProgram ts last program) (hnode : node.Within (.program program)) :
    node = .program program ∨ HasDeclaredPhrase ts node := by
  cases hnode with
  | refl => exact .inl rfl
  | @child _ decl hdecl hwithin =>
      right
      rw [Node.children_program] at hdecl
      cases hprogram with
      | mk hdecls =>
          obtain ⟨name, hname, hkind, hphrase⟩ := hdecls.hasDeclaredPhrase decl hdecl
          exact ⟨name, hname, hkind, hphrase.within hwithin⟩

end ClassLang.Syntax
