import ClassLang.Proofs.Reading.Agreement
import ClassLang.Proofs.Rendering.Statement
import ClassLang.Proofs.Stream.Munch
import ClassLang.Proofs.Syntax.Phrase

/-! # Proper trees

What comes after reading relies on the make of the trees: how many operands an operator has and
what is assigned to, which statements are bodies, and that names and the names of types are words
of their own sort. All nodes that are read are made so.
-/

namespace ClassLang

open Syntax Scan

variable {ι : Type}

/-! ## The make of nodes -/

/-- The operands are as many as the operator takes; a compound assignment needs a target. -/
inductive TakesOperands : Operator → List (Expr ι) → Prop
  | choice {condition holds fails} : TakesOperands .conditional [condition, holds, fails]
  | binary {symbol precedence left right} : symbol ∈ binaryOperators precedence →
      TakesOperands (.symbol symbol) [left, right]
  | unary {symbol operand} : symbol ∈ [Symbol.not, .minus, .increment, .decrement] →
      TakesOperands (.symbol symbol) [operand]
  | compound {symbol target value} : symbol ∈ compoundAssignments → IsTarget target →
      TakesOperands (.symbol symbol) [target, value]

/-- The root of an expression is made as it should be. -/
def Expr.Proper : Expr ι → Prop
  | this _ | null _ | bool _ _ | int _ _ | float _ _ | string _ _ => True
  | operator _ op operands => TakesOperands op operands
  | name _ n | assign _ n _ | get _ _ n | set _ _ n _ | call _ _ n _ => IsName n
  | getStatic _ type n | setStatic _ type n _ => IsTypename type ∧ IsName n
  | callStatic _ type n _ => (∀ owner ∈ type, IsTypename owner) ∧ IsName n
  | new _ type _ => IsTypename type

/-- The statement is a declaration or an expression. -/
def Stmt.isSimple : Stmt ι → Bool
  | declaration .. | expression .. => true
  | _ => false

/-- The root of a statement is made as it should be. -/
def Stmt.Proper : Stmt ι → Prop
  | ifElse _ _ body other => body.isBlock ∧ ∀ tree ∈ other, tree.isElse
  | forLoop _ first _ _ body => (∀ tree ∈ first, tree.isSimple) ∧ body.isBlock
  | whileLoop _ _ body => body.isBlock
  | declaration _ type n _ => (type = "var" ∨ IsTypename type) ∧ IsName n
  | block _ _ | breakLoop _ | continueLoop _ | returnValue _ _ | expression _ _ => True

/-- A node is made as it should be, whatever its children. -/
def Node.Proper : Node ι → Prop
  | expr tree => tree.Proper
  | stmt tree => tree.Proper
  | argument decl => IsTypename decl.type ∧ IsName decl.name
  | field decl => IsTypename decl.type ∧ IsName decl.name
  | stub decl => decl.access = .public ∧ IsTypename decl.returnType ∧ IsName decl.name
  | method decl => IsTypename decl.returnType ∧ IsName decl.name ∧ decl.body.isBlock
  | classDecl decl =>
      IsTypename decl.name ∧ IsTypename decl.base ∧ ∀ type ∈ decl.interfaces, IsTypename type
  | interfaceDecl decl => IsTypename decl.name ∧ ∀ type ∈ decl.bases, IsTypename type
  | program _ => True

/-! ## Phrases -/

namespace Syntax

variable {enclosing : Option String} {ts : List Token}

theorem Derives.proper {phrase : Phrase} (henclosing : ∀ name ∈ enclosing, IsTypename name)
    (hderives : Derives enclosing phrase ts) (hnames : ∀ token ∈ ts, token.CarriesNames) :
    phrase.Holds Expr.Proper := by
  induction hderives with
  | ofConditional _ ih | ofBinary _ ih | ofTighter _ ih | ofUnary _ ih | ofSuffixed _ ih
  | ofMember _ ih | ofPrimary _ ih => exact ih hnames
  | parenthesized _ _ _ ih => exact ih fun token hmem => hnames token (by simp [hmem])
  -- what is assigned to has its names from the target
  | assignName _ _ _ ih | assignField _ _ _ ih | assignStatic _ _ _ ih =>
      exact ih (List.forall_mem_append.mp hnames).1
  | assignCompound htarget _ _ hsymbol => exact .compound hsymbol htarget
  | choice => exact .choice
  | join _ _ hsymbol => exact .binary hsymbol
  | leading _ hsymbol => exact .unary (List.mem_append_left [Symbol.increment, .decrement] hsymbol)
  | trailing _ _ hsymbol => exact .unary (List.mem_append_right [Symbol.not, .minus] hsymbol)
  | field _ _ hname | call _ _ hname => exact (hnames _ (by simp)).name hname
  | staticField htype _ hname =>
      exact ⟨(hnames _ (by simp)).typename htype, (hnames _ (by simp)).name hname⟩
  | staticCall htype _ hname =>
      refine ⟨?_, (hnames _ (by simp)).name hname⟩
      rintro _ ⟨⟩
      exact (hnames _ (by simp)).typename htype
  | new _ _ htype => exact (hnames _ (by simp)).typename htype
  | ownCall hname => exact ⟨henclosing, (hnames _ (by simp)).name hname⟩
  | name hname => exact (hnames _ (by simp)).name hname
  | _ => trivial

theorem IsSimple.proper {tree : Stmt Token} (hsimple : IsSimple enclosing ts tree)
    (hnames : ∀ token ∈ ts, token.CarriesNames) : tree.Proper := by
  cases hsimple with
  | typed htype hname =>
      exact ⟨.inr ((hnames _ (by simp)).typename htype), (hnames _ (by simp)).name hname⟩
  | untyped _ hname => exact ⟨.inl rfl, (hnames _ (by simp)).name hname⟩
  | expression => trivial

theorem IsSimple.isSimple {tree : Stmt Token} (hsimple : IsSimple enclosing ts tree) :
    tree.isSimple := by
  cases hsimple <;> rfl

namespace DerivesStmt

variable {tree : Stmt Token}

theorem isBlock (hblock : DerivesStmt enclosing (.block tree) ts) : tree.isBlock := by
  cases hblock
  rfl

theorem isElse_of_block (hblock : DerivesStmt enclosing (.block tree) ts) : tree.isElse := by
  cases hblock
  rfl

theorem isElse_of_choice (hchoice : DerivesStmt enclosing (.choice tree) ts) : tree.isElse := by
  cases hchoice <;> rfl

theorem proper (hstatement : DerivesStmt enclosing (.statement tree) ts)
    (hnames : ∀ token ∈ ts, token.CarriesNames) : tree.Proper := by
  cases hstatement with
  | ofBlock hblock =>
      cases hblock
      trivial
  | ofChoice hchoice =>
      cases hchoice with
      | onlyIf _ _ _ _ hbody =>
          refine ⟨hbody.isBlock, ?_⟩
          rintro _ ⟨⟩
      | elseBlock _ _ _ _ hbody _ hother =>
          refine ⟨hbody.isBlock, ?_⟩
          rintro _ ⟨⟩
          exact hother.isElse_of_block
      | elseIf _ _ _ _ hbody _ hother =>
          refine ⟨hbody.isBlock, ?_⟩
          rintro _ ⟨⟩
          exact hother.isElse_of_choice
  | whileLoop _ _ _ _ hbody => exact hbody.isBlock
  | forLoop _ _ hfirst _ _ _ _ _ hbody =>
      refine ⟨?_, hbody.isBlock⟩
      rintro first ⟨⟩
      cases hfirst with
      | present hsimple => exact hsimple.isSimple
  | ofSimple hsimple => exact hsimple.proper (List.forall_mem_append.mp hnames).1
  | returnValue | breakLoop | continueLoop => trivial

end DerivesStmt

theorem AreTypesAfter.isTypename {text : String} {types : List String}
    (htypes : AreTypesAfter text ts types) (hnames : ∀ token ∈ ts, token.CarriesNames) :
    ∀ type ∈ types, IsTypename type := by
  intro type hmem
  cases htypes with
  | absent => cases hmem
  | listed _ hlist =>
      obtain ⟨us, hstretch, htype⟩ := hlist.exists_stretch hmem
      cases htype with
      | @mk token hkind =>
          have htoken := hstretch.subset (List.mem_singleton_self token)
          exact (hnames token (List.mem_cons_of_mem _ htoken)).typename hkind

theorem IsBase.isTypename {base : String} (hbase : IsBase ts base)
    (hnames : ∀ token ∈ ts, token.CarriesNames) : IsTypename base := by
  cases hbase with
  | absent => decide
  | named _ htype => exact (hnames _ (by simp)).typename htype

/-- The node of a phrase is made as it should be, if the tokens carry names as they should. -/
theorem IsPhrase.proper {node : Node Token} (henclosing : ∀ name ∈ enclosing, IsTypename name)
    (hphrase : IsPhrase enclosing ts node) (hnames : ∀ token ∈ ts, token.CarriesNames) :
    node.Proper := by
  cases hphrase with
  | expr hexpression => exact Derives.proper henclosing hexpression hnames
  | stmt hstatement => exact hstatement.proper hnames
  | simple hsimple => exact hsimple.proper hnames
  | argument hargument =>
      cases hargument with
      | mk htype hname =>
          exact ⟨(hnames _ (by simp)).typename htype, (hnames _ (by simp)).name hname⟩
  | field hfield =>
      cases hfield with
      | mk _ _ htype hname =>
          exact ⟨(hnames _ (by simp)).typename htype, (hnames _ (by simp)).name hname⟩
  | stub hstub =>
      cases hstub with
      | mk _ htype hname =>
          exact ⟨rfl, (hnames _ (by simp)).typename htype, (hnames _ (by simp)).name hname⟩
  | method hmethod =>
      cases hmethod with
      | mk _ _ htype hname _ hbody =>
          exact ⟨(hnames _ (by simp)).typename htype, (hnames _ (by simp)).name hname,
            DerivesStmt.isBlock hbody⟩
  | classDecl hclass =>
      cases hclass with
      | mk _ _ hname hbase hinterfaces =>
          exact ⟨(hnames _ (by simp)).typename hname,
            hbase.isTypename fun token hmem => hnames token (by simp [hmem]),
            hinterfaces.isTypename fun token hmem => hnames token (by simp [hmem])⟩
  | interfaceDecl hinterface =>
      cases hinterface with
      | mk _ _ hname hbases =>
          exact ⟨(hnames _ (by simp)).typename hname,
            hbases.isTypename fun token hmem => hnames token (by simp [hmem])⟩

theorem HasPhrase.proper {node : Node Token} (henclosing : ∀ name ∈ enclosing, IsTypename name)
    (hphrase : HasPhrase enclosing ts node) (hnames : ∀ token ∈ ts, token.CarriesNames) :
    node.Proper := by
  obtain ⟨us, hstretch, hphrase⟩ := hphrase
  exact hphrase.proper henclosing fun token hmem => hnames token (hstretch.subset hmem)

end Syntax

/-! ## Whole texts -/

theorem Program.proper_of_read {source : Source} {program : Program Token} {node : Node Token}
    (hread : Program.read source = .ok program) (hnode : node.Within (.program program)) :
    node.Proper := by
  obtain ⟨front, last, htokens, hprogram⟩ := Program.isProgram_of_read hread
  have hnames (token : Token) (hmem : token ∈ front) : token.CarriesNames :=
    TokenStream.carriesNames_of_tokens htokens (List.mem_append_left _ hmem)
  obtain rfl | ⟨around, haround, hkind, hphrase⟩ := hprogram.hasPhrase hnode
  · trivial
  · refine hphrase.proper ?_ hnames
    rintro _ ⟨⟩
    exact (hnames around haround).typename hkind

theorem Expr.proper_of_read {source : Source} {tree : Expr Token} {node : Node Token}
    (hread : Expr.read source = .ok tree) (hnode : node.Within (.expr tree)) : node.Proper := by
  obtain ⟨front, last, htokens, hexpression⟩ := Expr.isExpression_of_read hread
  refine ((IsPhrase.expr hexpression).hasPhrase.within hnode).proper ?_ fun token hmem =>
    TokenStream.carriesNames_of_tokens htokens (List.mem_append_left _ hmem)
  rintro _ ⟨⟩

/-- Every node of what is read is made as it should be. -/
theorem read_proper (source : Source) :
    (∀ program, Program.read source = .ok program →
      ∀ node : Node Token, node.Within (.program program) → node.Proper) ∧
    ∀ tree, Expr.read source = .ok tree →
      ∀ node : Node Token, node.Within (.expr tree) → node.Proper :=
  ⟨fun _ hread _ hnode => Program.proper_of_read hread hnode,
    fun _ hread _ hnode => Expr.proper_of_read hread hnode⟩

/-- A compound assignment is read that has a target and a value. -/
theorem read_proper_compound :
    let source := Source.ofString "<expression>" "a.b += c ? !d : e++ * 2"
    ∃ tag operator operands, Expr.read source = .ok (.operator tag operator operands) ∧
      TakesOperands operator operands := by
  intro source
  have hsort : (Expr.read source).toOption.map Expr.sort = some "Operator" := by decide +kernel
  cases hread : Expr.read source with
  | error failure => simp [hread, Except.toOption] at hsort
  | ok tree =>
      rw [hread] at hsort
      cases tree with
      | operator tag operator operands =>
          exact ⟨tag, operator, operands, rfl, (read_proper source).2 _ hread _ .refl⟩
      | _ => simp [Except.toOption, Expr.sort] at hsort

end ClassLang
