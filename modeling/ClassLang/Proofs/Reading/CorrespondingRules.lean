import ClassLang.Grammar.Reading
import ClassLang.Proofs.Reading.Correspondence
import ClassLang.Proofs.Tree.Shape

/-! # Corresponding texts are read alike

By every rule of the grammar, what is read from one of two corresponding texts has the shape of
what is read from the other, and a failure corresponds to a failure. The one exception are the
tags of trees: nothing depends on them, and nothing is said of them.
-/

namespace ClassLang

/-- Two members are fields or methods of the same shape. -/
inductive Member.Alike {ι κ : Type} : Member ι → Member κ → Prop
  | field {first second} : first.same second → Alike (.field first) (.field second)
  | method {first second} : first.same second → Alike (.method first) (.method second)

/-- Two declarations are classes or interfaces of the same shape. -/
inductive TopLevel.Alike {ι κ : Type} : TopLevel ι → TopLevel κ → Prop
  | classDecl {first second} : first.same second → Alike (.classDecl first) (.classDecl second)
  | interfaceDecl {first second} : first.same second →
      Alike (.interfaceDecl first) (.interfaceDecl second)

theorem Member.Alike.field? {ι κ : Type} ⦃first : Member ι⦄ ⦃second : Member κ⦄
    (hmember : first.Alike second) :
    Option.Rel (fun a b => a.same b) first.field? second.field? := by
  cases hmember with
  | field hsame => exact .some hsame
  | method => exact .none

theorem Member.Alike.method? {ι κ : Type} ⦃first : Member ι⦄ ⦃second : Member κ⦄
    (hmember : first.Alike second) :
    Option.Rel (fun a b => a.same b) first.method? second.method? := by
  cases hmember with
  | field => exact .none
  | method hsame => exact .some hsame

theorem TopLevel.Alike.classDecl? {ι κ : Type} ⦃first : TopLevel ι⦄ ⦃second : TopLevel κ⦄
    (hdecl : first.Alike second) :
    Option.Rel (fun a b => a.same b) first.classDecl? second.classDecl? := by
  cases hdecl with
  | classDecl hsame => exact .some hsame
  | interfaceDecl => exact .none

theorem TopLevel.Alike.interfaceDecl? {ι κ : Type} ⦃first : TopLevel ι⦄ ⦃second : TopLevel κ⦄
    (hdecl : first.Alike second) :
    Option.Rel (fun a b => a.same b) first.interfaceDecl? second.interfaceDecl? := by
  cases hdecl with
  | classDecl => exact .none
  | interfaceDecl hsame => exact .some hsame

theorem TopLevel.Alike.refl {ι : Type} (decl : TopLevel ι) : decl.Alike decl := by
  cases decl with
  | classDecl decl => exact .classDecl decl.same_refl
  | interfaceDecl decl => exact .interfaceDecl decl.same_refl

/-- Programs of declarations that are alike, in the same order, have the same shape. -/
theorem Program.same_of_declarations {ι κ : Type} {tag : ι} {tag' : κ} {decls : List (TopLevel ι)}
    {decls' : List (TopLevel κ)} (hdecls : List.Forall₂ TopLevel.Alike decls decls') :
    (⟨tag, decls.filterMap (·.classDecl?), decls.filterMap (·.interfaceDecl?)⟩ : Program ι).same
      (⟨tag', decls'.filterMap (·.classDecl?), decls'.filterMap (·.interfaceDecl?)⟩ :
        Program κ) := by
  have hclasses := List.rel_filterMap TopLevel.Alike.classDecl? hdecls
  have hinterfaces := List.rel_filterMap TopLevel.Alike.interfaceDecl? hdecls
  simp [Program.same, sameMembers_iff, hclasses, hinterfaces]

namespace Correspondence

variable {c : Correspondence}

/-- One rule, told of what corresponds, and how what is read by it is related. -/
inductive Rules (c : Correspondence) : {α : Type} → (α → α → Prop) → Rule α → Rule α → Prop
  | expression {left left'} : Option.Rel Expr.Alike left left' →
      Rules c Expr.Alike (.expression left) (.expression left')
  | assignment {left left'} : Option.Rel Expr.Alike left left' →
      Rules c Expr.Alike (.assignment left) (.assignment left')
  | conditional {left left'} : Option.Rel Expr.Alike left left' →
      Rules c Expr.Alike (.conditional left) (.conditional left')
  | binary {least left left'} : 1 ≤ least → Option.Rel Expr.Alike left left' →
      Rules c Expr.Alike (.binary least left) (.binary least left')
  | unary : Rules c Expr.Alike .unary .unary
  | suffixed {primary primary'} : Option.Rel Expr.Alike primary primary' →
      Rules c Expr.Alike (.suffixed primary) (.suffixed primary')
  | memberAccess {owner owner'} : owner.Alike owner' →
      Rules c Expr.Alike (.memberAccess owner) (.memberAccess owner')
  | staticMember {owner owner'} : c.token owner owner' →
      Rules c Expr.Alike (.staticMember owner) (.staticMember owner')
  | primary : Rules c Expr.Alike .primary .primary
  | expressionList : Rules c (List.Forall₂ Expr.Alike) .expressionList .expressionList
  | parenthesized : Rules c Expr.Alike .parenthesized .parenthesized
  | block : Rules c Stmt.Alike .block .block
  | statement : Rules c Stmt.Alike .statement .statement
  | simpleStatement : Rules c Stmt.Alike .simpleStatement .simpleStatement
  | declaration {token token' type} :
      Rules c Stmt.Alike (.declaration token type) (.declaration token' type)
  | ifStatement {token token'} : Rules c Stmt.Alike (.ifStatement token) (.ifStatement token')
  | forStatement {token token'} : Rules c Stmt.Alike (.forStatement token) (.forStatement token')
  | typeList : Rules c (List.Forall₂ Eq) .typeList .typeList
  | argument : Rules c (fun first second => first.same second) .argument .argument
  | argumentList :
      Rules c (List.Forall₂ fun first second => first.same second) .argumentList .argumentList
  | methodStub : Rules c (fun first second => first.same second) .methodStub .methodStub
  | member : Rules c Member.Alike .member .member
  | classDeclaration {token token' access} : Rules c (fun first second => first.same second)
      (.classDeclaration token access) (.classDeclaration token' access)
  | interfaceDeclaration {token token' access} : Rules c (fun first second => first.same second)
      (.interfaceDeclaration token access) (.interfaceDeclaration token' access)
  | module : Rules c (fun first second => first.same second) .module .module

/-- By the rules of the level corresponding texts are read alike. -/
structure Levels (c : Correspondence) (level : Level) : Prop where
  integerDigits : level.integerDigits = some Failure.integerDigits
  read {α : Type} {related : α → α → Prop} {rule rule' : Rule α} (enclosing : Option String) :
    c.Rules related rule rule' →
      c.Parsers related (level.read enclosing rule) (level.read enclosing rule')

namespace Levels

variable {level : Level} (hlevel : c.Levels level) (enclosing : Option String)

include hlevel

/-! ## Expressions -/

theorem assignment {left left' : Option (Expr Token)} (hleft : Option.Rel Expr.Alike left left') :
    c.Parsers Expr.Alike (level.assignment enclosing left)
      (level.assignment enclosing left') := by
  refine (hlevel.read enclosing (.conditional hleft)).bind fun target target' htarget =>
    Parsers.takeSymbol?.bind fun taken taken' htaken => ?_
  cases htaken with
  | none => exact .pure htarget
  | @some first second hpair =>
      obtain ⟨token, operator⟩ := first
      obtain ⟨token', _⟩ := second
      obtain ⟨htoken, rfl⟩ := hpair
      refine (hlevel.read enclosing (.assignment .none)).bind fun value value' hvalue => ?_
      have hassigned := htarget.assigned? operator hvalue
      dsimp only
      generalize target.assigned? operator value = tree at hassigned ⊢
      generalize target'.assigned? operator value' = tree' at hassigned ⊢
      cases hassigned with
      | none => exact .refuse htoken
      | some htree => exact .pure htree

theorem conditional {left left' : Option (Expr Token)}
    (hleft : Option.Rel Expr.Alike left left') :
    c.Parsers Expr.Alike (level.conditional enclosing left)
      (level.conditional enclosing left') := by
  have hread := hlevel.read enclosing (.binary (Nat.le_refl 1) hleft)
  refine hread.bind fun condition condition' hcondition =>
    Parsers.take?.bind fun taken taken' htaken => ?_
  cases htaken with
  | none => exact .pure hcondition
  | some =>
      refine (hlevel.read enclosing (.expression .none)).bind fun holds holds' hholds =>
        Parsers.expectSymbol.bind fun _ _ _ =>
          (hlevel.read enclosing (.conditional .none)).bind fun fails fails' hfails => ?_
      exact .pure (by simp_all [Expr.Alike, Expr.same, Expr.sameAll])

/-- An operator is taken on both sides or on neither. No other token is, as one would be if it were
not asked for a precedence. -/
theorem joinBinary {least : Nat} (hleast : 1 ≤ least) {left left' : Expr Token}
    (hleft : left.Alike left') :
    c.Parsers (Option.Rel Expr.Alike) (level.joinBinary enclosing least left)
      (level.joinBinary enclosing least left') := by
  refine Parsers.peek.bind fun token token' htoken => ?_
  have hbinary : token'.binary? = token.binary? := by
    rw [Token.binary?, Token.binary?, c.kind_eq htoken]
  rw [Token.precedence, Token.precedence, hbinary]
  cases token.binary? with
  | none =>
      have hlooser : 0 < least := hleast
      rw [Option.elim_none, if_pos hlooser, if_pos hlooser]
      exact .pure .none
  | some found =>
      split
      · exact .pure .none
      · refine Parsers.advance.bind fun _ _ _ =>
          (hlevel.read enclosing (.binary (by omega) .none)).bind fun right right' hright => ?_
        exact .pure (.some (by simp_all [Expr.Alike, Expr.same, Expr.sameAll]))

theorem binary {least : Nat} (hleast : 1 ≤ least) {left left' : Option (Expr Token)}
    (hleft : Option.Rel Expr.Alike left left') :
    c.Parsers Expr.Alike (level.binary enclosing least left)
      (level.binary enclosing least left') := by
  have hloop (first first' : Expr Token) (hfirst : first.Alike first') :
      c.Parsers Expr.Alike (Parser.iterate (level.joinBinary enclosing least) first)
        (Parser.iterate (level.joinBinary enclosing least) first') :=
    .iterate hfirst fun _ _ => hlevel.joinBinary enclosing hleast
  cases hleft with
  | none => exact (hlevel.read enclosing .unary).bind hloop
  | some hfirst => exact (Parsers.pure hfirst).bind hloop

theorem unary :
    c.Parsers Expr.Alike (level.unary enclosing) (level.unary enclosing) := by
  refine Parsers.takeSymbol?.bind fun taken taken' htaken => ?_
  cases htaken with
  | none => exact hlevel.read enclosing (.suffixed .none)
  | @some first second hpair =>
      obtain ⟨token, operator⟩ := first
      obtain ⟨token', _⟩ := second
      obtain ⟨htoken, rfl⟩ := hpair
      refine (hlevel.read enclosing .unary).bind fun operand operand' hoperand => ?_
      exact .pure (by simp_all [Expr.Alike, Expr.same, Expr.sameAll])

theorem suffixed {primary primary' : Option (Expr Token)}
    (hprimary : Option.Rel Expr.Alike primary primary') :
    c.Parsers Expr.Alike (level.suffixed enclosing primary)
      (level.suffixed enclosing primary') := by
  have htrailing (operand operand' : Expr Token) (hoperand : operand.Alike operand') :
      c.Parsers (Option.Rel Expr.Alike) (Level.applyTrailing operand)
        (Level.applyTrailing operand') := by
    refine Parsers.takeSymbol?.bind fun taken taken' htaken => ?_
    cases htaken with
    | none => exact .pure .none
    | some hpair => exact .pure (.some (by simp_all [Expr.Alike, Expr.same, Expr.sameAll]))
  have hrest (first first' : Expr Token) (hfirst : first.Alike first') :=
    (hlevel.read enclosing (.memberAccess hfirst)).bind fun operand operand' hoperand =>
      Parsers.iterate hoperand htrailing
  cases hprimary with
  | none => exact (hlevel.read enclosing .primary).bind hrest
  | some hfirst => exact (Parsers.pure hfirst).bind hrest

theorem accessMember {owner owner' : Expr Token} (howner : owner.Alike owner') :
    c.Parsers (Option.Rel Expr.Alike) (level.accessMember enclosing owner)
      (level.accessMember enclosing owner') := by
  refine Parsers.take?.bind fun taken taken' htaken => ?_
  cases htaken with
  | none => exact .pure .none
  | some =>
      refine Parsers.expectName.bind fun name _ hname => Parsers.isAt.bind fun opens _ hopens => ?_
      subst hname hopens
      split
      · refine (hlevel.read enclosing .expressionList).bind
          fun arguments arguments' harguments => ?_
        exact .pure (.some (by simp_all [Expr.Alike, Expr.same, Expr.sameAll_iff]))
      · exact .pure (.some (by simp_all [Expr.Alike, Expr.same]))

theorem staticMember {owner owner' : Token} (howner : c.token owner owner') :
    c.Parsers Expr.Alike (level.staticMember enclosing owner)
      (level.staticMember enclosing owner') := by
  refine Parsers.expectSymbol.bind fun _ _ _ => Parsers.expectName.bind fun name _ hname =>
    Parsers.isAt.bind fun opens _ hopens => ?_
  subst hname hopens
  have hpayload := payload_eq howner
  split
  · refine (hlevel.read enclosing .expressionList).bind fun arguments arguments' harguments => ?_
    exact .pure (by simp_all [Expr.Alike, Expr.same, Expr.sameAll_iff])
  · exact .pure (by simp_all [Expr.Alike, Expr.same])

theorem callOrName {token token' : Token} (htoken : c.token token token') :
    c.Parsers Expr.Alike (level.callOrName enclosing token)
      (level.callOrName enclosing token') := by
  refine Parsers.isAt.bind fun opens _ hopens => ?_
  subst hopens
  have hpayload := payload_eq htoken
  split
  · refine (hlevel.read enclosing .expressionList).bind fun arguments arguments' harguments => ?_
    exact .pure (by simp_all [Expr.Alike, Expr.same, Expr.sameAll_iff])
  · exact .pure (by simp_all [Expr.Alike, Expr.same])

theorem named {token token' : Token} (htoken : c.token token token') :
    c.Parsers Expr.Alike (level.named enclosing token) (level.named enclosing token') := by
  have hcall := hlevel.callOrName enclosing htoken
  unfold Level.named
  rw [c.data_eq htoken]
  split
  · refine Parsers.isAt.bind fun typed _ htyped => ?_
    subst htyped
    split
    · refine Parsers.expectTypename.bind fun type _ htype =>
        (hlevel.read enclosing .expressionList).bind fun arguments arguments' harguments => ?_
      exact .pure (by simp_all [Expr.Alike, Expr.same, Expr.sameAll_iff])
    · exact hcall
  · exact hcall

theorem integer {token token' : Token} (htoken : c.token token token')
    (hkind : token.kind = .int) :
    c.Parsers Expr.Alike (level.integer token) (level.integer token') := by
  unfold Level.integer
  rw [hlevel.integerDigits, ← payload_eq htoken]
  dsimp only [Option.any]
  split
  next hlong => exact fun _ _ _ => .error (.integerTooLong htoken hkind (of_decide_eq_true hlong))
  next => exact .pure (by simp [Expr.Alike, Expr.same])

theorem primary : c.Parsers Expr.Alike (level.primary enclosing) (level.primary enclosing) := by
  refine Parsers.peek.bind fun token token' htoken => ?_
  have hkind := c.kind_eq htoken
  have hpayload := payload_eq htoken
  rw [← hkind]
  split
  case h_5 hint => exact Parsers.advance.bind fun _ _ _ => hlevel.integer htoken hint
  case h_8 =>
    exact Parsers.advance.bind fun _ _ _ =>
      (hlevel.read enclosing (.expression .none)).bind fun inner inner' hinner =>
        Parsers.expectSymbol.bind fun _ _ _ => .pure hinner
  case h_9 => exact Parsers.advance.bind fun _ _ _ => hlevel.read enclosing (.staticMember htoken)
  case h_10 => exact Parsers.advance.bind fun _ _ _ => hlevel.named enclosing htoken
  case h_11 => exact .refuse htoken
  all_goals
    exact Parsers.advance.bind fun _ _ _ => .pure (by simp [Expr.Alike, Expr.same, hpayload])

theorem parenthesized :
    c.Parsers Expr.Alike (level.parenthesized enclosing) (level.parenthesized enclosing) :=
  Parsers.expectSymbol.bind fun _ _ _ => (hlevel.read enclosing (.expression .none)).bind
    fun _ _ hinner => Parsers.expectSymbol.bind fun _ _ _ => .pure hinner

/-! ## Statements -/

theorem block : c.Parsers Stmt.Alike (level.block enclosing) (level.block enclosing) := by
  refine Parsers.expectSymbol.bind fun _ _ _ =>
    (hlevel.read enclosing .statement).manyUntil.bind fun statements statements' hstatements => ?_
  exact .pure (by simp_all [Stmt.Alike, Stmt.same, Stmt.sameAll_iff])

theorem expressionUnless {close : Symbol} :
    c.Parsers (Option.Rel Expr.Alike) (level.expressionUnless enclosing close)
      (level.expressionUnless enclosing close) := by
  refine Parsers.isAt.bind fun closes _ hcloses => ?_
  subst hcloses
  split
  · exact .pure .none
  · exact (hlevel.read enclosing (.expression .none)).map fun _ _ hvalue => .some hvalue

theorem firstValue :
    c.Parsers (Option.Rel Expr.Alike) (level.firstValue enclosing)
      (level.firstValue enclosing) :=
  Parsers.take?.bind fun _ _ htaken => (hlevel.read enclosing (.expression .none)).itemIf htaken

theorem statement :
    c.Parsers Stmt.Alike (level.statement enclosing) (level.statement enclosing) := by
  refine Parsers.peek.bind fun token token' htoken => ?_
  rw [← c.kind_eq htoken]
  split
  case h_1 => exact hlevel.read enclosing .block
  case h_2 => exact Parsers.advance.bind fun _ _ _ => hlevel.read enclosing .ifStatement
  case h_3 =>
    refine Parsers.advance.bind fun _ _ _ =>
      (hlevel.read enclosing .parenthesized).bind fun condition condition' hcondition =>
        (hlevel.read enclosing .block).bind fun body body' hbody => ?_
    exact .pure (by simp_all [Stmt.Alike, Stmt.same])
  case h_4 => exact Parsers.advance.bind fun _ _ _ => hlevel.read enclosing .forStatement
  case h_5 =>
    refine Parsers.advance.bind fun _ _ _ => (hlevel.expressionUnless enclosing).bind
      fun value value' hvalue => Parsers.expectSymbol.bind fun _ _ _ => ?_
    exact .pure (by simp_all [Stmt.Alike, Stmt.same, Stmt.sameValue_iff])
  case h_8 =>
    exact (hlevel.read enclosing .simpleStatement).bind fun simple simple' hsimple =>
      Parsers.expectSymbol.bind fun _ _ _ => .pure hsimple
  all_goals
    exact Parsers.advance.bind fun _ _ _ => Parsers.expectSymbol.bind fun _ _ _ =>
      .pure (by simp [Stmt.Alike, Stmt.same])

theorem simpleStatement :
    c.Parsers Stmt.Alike (level.simpleStatement enclosing) (level.simpleStatement enclosing) := by
  refine Parsers.peek.bind fun token token' htoken => ?_
  rw [← c.kind_eq htoken]
  split
  · exact Parsers.advance.bind fun _ _ _ => hlevel.read enclosing .declaration
  · refine Parsers.advance.bind fun _ _ _ => Parsers.isAt.bind fun named _ hnamed => ?_
    subst hnamed
    split
    · rw [payload_eq htoken]
      exact hlevel.read enclosing .declaration
    · refine (hlevel.read enclosing (.staticMember htoken)).bind fun member member' hmember =>
        (hlevel.read enclosing (.suffixed (.some hmember))).bind fun left left' hleft =>
          (hlevel.read enclosing (.expression (.some hleft))).bind fun value value' hvalue => ?_
      exact .pure (by simp_all [Stmt.Alike, Stmt.same])
  · refine (hlevel.read enclosing (.expression .none)).bind fun value value' hvalue => ?_
    exact .pure (by simp_all [Stmt.Alike, Stmt.same])

theorem declaration {token token' : Token} {type : String} :
    c.Parsers Stmt.Alike (level.declaration enclosing token type)
      (level.declaration enclosing token' type) := by
  refine Parsers.expectName.bind fun name _ hname =>
    (hlevel.firstValue enclosing).bind fun value value' hvalue => ?_
  exact .pure (by simp_all [Stmt.Alike, Stmt.same, Stmt.sameValue_iff])

theorem ifStatement {token token' : Token} :
    c.Parsers Stmt.Alike (level.ifStatement enclosing token)
      (level.ifStatement enclosing token') := by
  refine (hlevel.read enclosing .parenthesized).bind fun condition condition' hcondition =>
    (hlevel.read enclosing .block).bind fun body body' hbody =>
      Parsers.take?.bind fun elseWord elseWord' helse => ?_
  cases helse with
  | none => exact .pure (by simp_all [Stmt.Alike, Stmt.same, Stmt.sameOption])
  | some =>
      refine Parsers.peek.bind fun _ _ _ => Parsers.take?.bind fun ifWord ifWord' hif => ?_
      cases hif with
      | none =>
          refine (hlevel.read enclosing .block).bind fun other other' hother => ?_
          exact .pure (by simp_all [Stmt.Alike, Stmt.same, Stmt.sameOption])
      | some =>
          refine (hlevel.read enclosing .ifStatement).bind fun other other' hother => ?_
          exact .pure (by simp_all [Stmt.Alike, Stmt.same, Stmt.sameOption])

theorem forStatement {token token' : Token} :
    c.Parsers Stmt.Alike (level.forStatement enclosing token)
      (level.forStatement enclosing token') := by
  have hsimple : c.Parsers (Option.Rel Stmt.Alike)
      (some <$> level.read enclosing .simpleStatement)
      (some <$> level.read enclosing .simpleStatement) :=
    (hlevel.read enclosing .simpleStatement).map fun _ _ hfirst => .some hfirst
  refine Parsers.expectSymbol.bind fun _ _ _ => Parsers.isAt.bind fun empty _ hempty => ?_
  subst hempty
  refine .choice (.pure .none) hsimple fun first first' hfirst =>
    Parsers.expectSymbol.bind fun _ _ _ =>
      (hlevel.expressionUnless enclosing).bind fun condition condition' hcondition =>
        Parsers.expectSymbol.bind fun _ _ _ =>
          (hlevel.expressionUnless enclosing).bind fun step step' hstep =>
            Parsers.expectSymbol.bind fun _ _ _ =>
              (hlevel.read enclosing .block).bind fun body body' hbody => ?_
  exact .pure (by simp_all [Stmt.Alike, Stmt.same, Stmt.sameOption_iff, Stmt.sameValue_iff])

/-! ## Declarations -/

omit hlevel in
theorem accessModifier : c.Parsers Eq Level.accessModifier Level.accessModifier := by
  refine Parsers.takeAny?.bind fun taken taken' htaken => ?_
  cases htaken with
  | none => exact .pure rfl
  | some htoken => exact .pure (by rw [c.kind_eq htoken])

omit hlevel in
theorem staticModifier : c.Parsers Eq Level.staticModifier Level.staticModifier :=
  Parsers.take?.map fun taken taken' htaken => by cases htaken <;> rfl

omit hlevel in
theorem baseType : c.Parsers Eq Level.baseType Level.baseType := by
  refine Parsers.takeWord?.bind fun taken taken' htaken => ?_
  cases htaken with
  | none => exact .pure rfl
  | some => exact Parsers.expectTypename

omit hlevel in
theorem argument : c.Parsers (fun first second => first.same second) Level.argument
    Level.argument := by
  refine Parsers.peek.bind fun token token' _ => Parsers.expectTypename.bind fun type _ htype =>
    Parsers.expectName.bind fun name _ hname => ?_
  exact .pure (by simp_all [Argument.same])

theorem typesAfter {word : String} :
    c.Parsers Eq (level.typesAfter enclosing word) (level.typesAfter enclosing word) := by
  refine Parsers.takeWord?.bind fun taken taken' htaken => ?_
  cases htaken with
  | none => exact .pure rfl
  | some =>
      exact (hlevel.read enclosing .typeList).mono fun _ _ htypes => List.forall₂_eq_eq_eq ▸ htypes

theorem methodStub :
    c.Parsers (fun first second => first.same second) (level.methodStub enclosing)
      (level.methodStub enclosing) := by
  refine Parsers.peek.bind fun token token' htoken => accessModifier.bind fun access _ haccess => ?_
  subst haccess
  split
  · exact .refuse htoken
  · refine Parsers.expectTypename.bind fun type _ htype => Parsers.expectName.bind
      fun name _ hname => (hlevel.read enclosing .argumentList).bind
        fun arguments arguments' harguments => Parsers.expectSymbol.bind fun _ _ _ => ?_
    exact .pure (by simp_all [MethodStub.same, sameMembers_iff])

theorem member :
    c.Parsers Member.Alike (level.member enclosing) (level.member enclosing) := by
  refine Parsers.peek.bind fun token token' _ => accessModifier.bind fun access _ haccess =>
    staticModifier.bind fun isStatic _ hstatic => Parsers.expectTypename.bind fun type _ htype =>
      Parsers.expectName.bind fun name _ hname => Parsers.isAt.bind fun opens _ hopens => ?_
  subst hopens
  split
  · refine (hlevel.read enclosing .argumentList).bind fun arguments arguments' harguments =>
      (hlevel.read enclosing .block).bind fun body body' hbody => ?_
    exact .pure (.method (by simp_all [Method.same, sameMembers_iff]))
  · refine (hlevel.firstValue enclosing).bind fun value value' hvalue =>
      Parsers.expectSymbol.bind fun _ _ _ => ?_
    exact .pure (.field (by simp_all [Field.same, Stmt.sameValue_iff]))

theorem classDeclaration {token token' : Token} {access : Access} :
    c.Parsers (fun first second => first.same second)
      (level.classDeclaration enclosing token access)
      (level.classDeclaration enclosing token' access) := by
  refine Parsers.expect.bind fun _ _ _ => Parsers.expectTypename.bind fun name _ hname =>
    baseType.bind fun base _ hbase => (hlevel.typesAfter enclosing).bind
      fun interfaces _ hinterfaces => Parsers.expectSymbol.bind fun _ _ _ => ?_
  subst hname hbase hinterfaces
  refine (hlevel.read (some name) .member).manyUntil.bind fun members members' hmembers => ?_
  have hfields := List.rel_filterMap Member.Alike.field? hmembers
  have hmethods := List.rel_filterMap Member.Alike.method? hmembers
  exact .pure (by simp [ClassDecl.same, sameMembers_iff, hfields, hmethods])

theorem interfaceDeclaration {token token' : Token} {access : Access} :
    c.Parsers (fun first second => first.same second)
      (level.interfaceDeclaration enclosing token access)
      (level.interfaceDeclaration enclosing token' access) := by
  refine Parsers.expect.bind fun _ _ _ => Parsers.expectTypename.bind fun name _ hname =>
    (hlevel.typesAfter enclosing).bind fun bases _ hbases => Parsers.expectSymbol.bind
      fun _ _ _ => (hlevel.read enclosing .methodStub).manyUntil.bind fun stubs stubs' hstubs => ?_
  exact .pure (by simp_all [InterfaceDecl.same, sameMembers_iff])

theorem topLevel :
    c.Parsers TopLevel.Alike (level.topLevel enclosing) (level.topLevel enclosing) := by
  refine Parsers.peek.bind fun token token' _ => accessModifier.bind fun access _ haccess =>
    Parsers.isAt.bind fun isClass _ hclass => ?_
  subst haccess hclass
  split
  · exact (hlevel.read enclosing .classDeclaration).map fun _ _ hnode => .classDecl hnode
  · refine Parsers.isAt.bind fun isInterface _ hinterface => ?_
    subst hinterface
    split
    · exact (hlevel.read enclosing .interfaceDeclaration).map fun _ _ hnode => .interfaceDecl hnode
    · exact Parsers.peek.bind fun _ _ htoken => .refuse htoken

/-- Declarations up to the end of the text. -/
theorem declarations :
    c.Parsers (List.Forall₂ TopLevel.Alike)
      (Parser.many do
        if ← Parser.isAt .endOfText then return none else some <$> level.topLevel enclosing)
      (Parser.many do
        if ← Parser.isAt .endOfText then return none else some <$> level.topLevel enclosing) := by
  refine .many (Parsers.isAt.bind fun ends _ hends => ?_)
  subst hends
  split
  · exact .pure .none
  · exact (hlevel.topLevel enclosing).map fun _ _ hdecl => .some hdecl

theorem module :
    c.Parsers (fun first second => first.same second) (level.module enclosing)
      (level.module enclosing) := by
  refine Parsers.peek.bind fun start start' _ => (hlevel.declarations enclosing).bind
    fun decls decls' hdecls => ?_
  exact .pure (Program.same_of_declarations hdecls)

/-! ## All rules -/

/-- Every rule reads corresponding texts alike if the rules one level further in do. -/
theorem apply {α : Type} {related : α → α → Prop} {rule rule' : Rule α}
    (hrules : c.Rules related rule rule') :
    c.Parsers related (level.apply enclosing rule) (level.apply enclosing rule') := by
  cases hrules with
  | expression hleft => exact hlevel.read enclosing (.assignment hleft)
  | assignment hleft => exact hlevel.assignment enclosing hleft
  | conditional hleft => exact hlevel.conditional enclosing hleft
  | binary hleast hleft => exact hlevel.binary enclosing hleast hleft
  | unary => exact hlevel.unary enclosing
  | suffixed hprimary => exact hlevel.suffixed enclosing hprimary
  | memberAccess howner => exact .iterate howner fun _ _ => hlevel.accessMember enclosing
  | staticMember howner => exact hlevel.staticMember enclosing howner
  | primary => exact hlevel.primary enclosing
  | expressionList => exact (hlevel.read enclosing (.expression .none)).parenthesizedList
  | parenthesized => exact hlevel.parenthesized enclosing
  | block => exact hlevel.block enclosing
  | statement => exact hlevel.statement enclosing
  | simpleStatement => exact hlevel.simpleStatement enclosing
  | declaration => exact hlevel.declaration enclosing
  | ifStatement => exact hlevel.ifStatement enclosing
  | forStatement => exact hlevel.forStatement enclosing
  | typeList => exact Parsers.expectTypename.commaSeparated
  | argument => exact argument
  | argumentList => exact (hlevel.read enclosing .argument).parenthesizedList
  | methodStub => exact hlevel.methodStub enclosing
  | member => exact hlevel.member enclosing
  | classDeclaration => exact hlevel.classDeclaration enclosing
  | interfaceDeclaration => exact hlevel.interfaceDeclaration enclosing
  | module => exact hlevel.module enclosing

theorem wholeExpression : c.Parsers Expr.Alike level.wholeExpression level.wholeExpression :=
  (hlevel.read none (.expression .none)).bind fun _ _ htree => Parsers.expect.bind
    fun _ _ _ => .pure htree

end Levels

/-- To whatever depth rules may nest, corresponding texts are read alike. -/
theorem levels_ofDepth (depth : Nat) : c.Levels (Level.ofDepth depth) := by
  induction depth with
  | zero => exact ⟨rfl, fun _ _ => Parsers.peek.bind fun _ _ htoken => .refuse htoken⟩
  | succ depth ih => exact ⟨rfl, fun enclosing hrules => ih.apply enclosing hrules⟩

end Correspondence

end ClassLang
