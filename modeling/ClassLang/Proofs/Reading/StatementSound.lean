import ClassLang.Proofs.Reading.ExpressionSound
import ClassLang.Proofs.Reading.StatementRules
import ClassLang.Proofs.Reading.StaticStart
import ClassLang.Proofs.Syntax.Statement

/-! # What is read as a statement is one

As for expressions, the rules of statements of a level owe their soundness to
the rules one level further in. An expression that starts with a type is read
piece by piece, and is related to the expression read as a whole.
-/

namespace ClassLang.Level

open TokenStream ClassLang.Parser Syntax

variable {digits : Option Nat} {depth : Nat} {level : Level} {enclosing : Option String}
  {stream next : TokenStream}

/-- An expression in parentheses. -/
def IsCondition (enclosing : Option String) (tokens : List Token) (tree : Expr Token) : Prop :=
  ∃ opening ts closing, tokens = opening :: ts ++ [closing] ∧ opening.kind = .symbol .parenOpen ∧
    IsExpression enclosing ts tree ∧ closing.kind = .symbol .parenClose

/-- What the rules of statements of a level read are phrases of the grammar. -/
structure SoundStatements (level : Level) (enclosing : Option String) : Prop where
  parenthesized : Sound (level.read enclosing .parenthesized) (IsCondition enclosing)
  block : Sound (level.read enclosing .block) (IsBlock enclosing)
  statement : Sound (level.read enclosing .statement)
    fun ts tree => DerivesStmt enclosing (.statement tree) ts
  simpleStatement : Sound (level.read enclosing .simpleStatement) (IsSimple enclosing)
  declaration {token : Token} {type : String} :
    Sound (level.read enclosing (.declaration token type)) fun ts tree =>
      ∃ name us value, ts = name :: us ∧ name.kind = .name ∧ IsFirstValue enclosing us value ∧
        tree = .declaration token type name.payload value
  ifStatement {word : Token} (hword : word.kind = .keyword .if) :
    Sound (level.read enclosing (.ifStatement word))
      fun ts tree => DerivesStmt enclosing (.choice tree) (word :: ts)
  forStatement {word : Token} (hword : word.kind = .keyword .for) :
    Sound (level.read enclosing (.forStatement word))
      fun ts tree => DerivesStmt enclosing (.statement tree) (word :: ts)

theorem SoundExpressions.read_parenthesized (hsound : level.SoundExpressions enclosing) :
    Sound (level.parenthesized enclosing) (IsCondition enclosing) := by
  intro stream tree next hyields
  obtain ⟨opening, hopening, middle, hhands, _, inner, htree, ⟨closing, hclosing, hhands'⟩, rfl⟩ :=
    yields_parenthesized.mp hyields
  obtain ⟨ts, hts, hderives⟩ := hsound.expression _ _ _ htree
  exact ⟨opening :: ts ++ [closing], (Passes.cons hhands hts).append (.single hhands'),
    opening, ts, closing, rfl, hopening, hderives, hclosing⟩

theorem SoundExpressions.read_expressionUnless (hsound : level.SoundExpressions enclosing)
    {close : Symbol} :
    Sound (level.expressionUnless enclosing close) (Optionally (IsExpression enclosing)) := by
  intro stream value next hyields
  have hcases := yields_expressionUnless.mp hyields
  split at hcases
  next =>
    obtain ⟨rfl, rfl⟩ := hcases
    exact ⟨[], .nil _, .absent⟩
  next =>
    obtain ⟨tree, htree, rfl⟩ := hcases
    obtain ⟨ts, hts, hderives⟩ := hsound.expression _ _ _ htree
    exact ⟨ts, hts, .present hderives⟩

theorem SoundExpressions.read_firstValue (hsound : level.SoundExpressions enclosing) :
    Sound (level.firstValue enclosing) (IsFirstValue enclosing) := by
  intro stream value next hyields
  obtain ⟨_, rfl, rfl⟩ | ⟨equals, hequals, middle, hhands, tree, htree, rfl⟩ :=
    yields_firstValue.mp hyields
  · exact ⟨[], .nil _, .absent⟩
  · obtain ⟨ts, hts, hderives⟩ := hsound.expression _ _ _ htree
    exact ⟨equals :: ts, .cons hhands hts, .present hequals hderives⟩

theorem SoundExpressions.read_declaration (hsound : level.SoundExpressions enclosing)
    {token : Token} {type : String} :
    Sound (level.declaration enclosing token type) fun ts tree =>
      ∃ name us value, ts = name :: us ∧ name.kind = .name ∧ IsFirstValue enclosing us value ∧
        tree = .declaration token type name.payload value := by
  intro stream tree next hyields
  obtain ⟨name, hname, middle, hhands, value, hvalue, rfl⟩ := yields_declaration.mp hyields
  obtain ⟨ts, hts, hfirst⟩ := hsound.read_firstValue _ _ _ hvalue
  exact ⟨name :: ts, .cons hhands hts, name, ts, value, rfl, hname, hfirst, rfl⟩

/-- An expression read from a member of a type on is an expression from the type on. -/
theorem sound_typeStart {member left tree : Expr Token} {s₁ s₂ s₃ : TokenStream}
    (htype : stream.buffered.kind = .typename) (hhands : stream.Hands stream.buffered s₁)
    (hmember : Yields ((bounded digits depth).read enclosing (.staticMember stream.buffered)) s₁
      member s₂)
    (hleft : Yields ((bounded digits depth).read enclosing (.suffixed (some member))) s₂ left s₃)
    (htree : Yields ((bounded digits depth).read enclosing (.expression (some left))) s₃ tree
      next) :
    ∃ ts, s₁.Passes ts next ∧ IsExpression enclosing (stream.buffered :: ts) tree := by
  have hwhole : Yields ((bounded digits (depth + 7)).read enclosing (.expression none)) stream
      tree next := by
    unfold Yields
    rw [read_expression_of_typename htype]
    refine yields_bind.mpr ⟨left, s₃, yields_bind.mpr ⟨member, s₂, ?_, hleft.deeper (by omega)⟩,
      htree.deeper (by omega)⟩
    exact (yields_advance_bind (by simp [htype])).mpr ⟨s₁, hhands, hmember⟩
  obtain ⟨ts, hts, hderives⟩ :=
    (bounded_soundExpressions digits (depth + 7) enclosing).expression _ _ _ hwhole
  obtain ⟨token, rest, rfl, _⟩ := Derives.head hderives
  obtain ⟨middle, hhands', hrest⟩ := Passes.cons_iff.mp hts
  obtain ⟨rfl, rfl⟩ := hhands.unique hhands'
  exact ⟨rest, hrest, hderives⟩

namespace SoundStatements

variable (hsound : (bounded digits depth).SoundStatements enclosing)

include hsound

theorem read_block : Sound ((bounded digits depth).block enclosing) (IsBlock enclosing) := by
  intro stream tree next hyields
  obtain ⟨opening, hopening, middle, hhands, trees, htrees, rfl⟩ := yields_block.mp hyields
  have hstart : Starts (fun ts tree => DerivesStmt enclosing (.statement tree) ts)
      fun _ => True := by
    intro ts tree hstatement
    obtain ⟨token, rest, heq, _⟩ := hstatement.head_statement
    exact ⟨token, rest, heq, trivial⟩
  obtain ⟨_, hpasses, ts, closing, rfl, hclosing, hsequence⟩ :=
    hsound.statement.manyUntil (by simp) hstart _ _ _ htrees
  exact ⟨opening :: ts ++ [closing], .cons hhands hpasses,
    .block hopening (DerivesStmt.sequence_iff.mpr hsequence) hclosing⟩

theorem read_simpleStatement :
    Sound ((bounded digits depth).simpleStatement enclosing) (IsSimple enclosing) := by
  intro stream tree next hyields
  have hcases := yields_simpleStatement.mp hyields
  have hexpression := bounded_soundExpressions digits depth enclosing
  split at hcases
  next hkind =>
    obtain ⟨middle, hhands, hdeclaration⟩ := hcases
    obtain ⟨_, hts, name, us, value, rfl, hname, hvalue, rfl⟩ :=
      hsound.declaration _ _ _ hdeclaration
    exact ⟨_, .cons hhands hts, .untyped hkind hname hvalue⟩
  next htype =>
    obtain ⟨middle, hhands, hrest⟩ := hcases
    split at hrest
    next =>
      obtain ⟨_, hts, name, us, value, rfl, hname, hvalue, rfl⟩ :=
        hsound.declaration _ _ _ hrest
      exact ⟨_, .cons hhands hts, .typed htype hname hvalue⟩
    next =>
      obtain ⟨member, s₂, hmember, left, s₃, hleft, value, hvalue, rfl⟩ := hrest
      obtain ⟨ts, hts, hderives⟩ := sound_typeStart htype hhands hmember hleft hvalue
      exact ⟨_, .cons hhands hts, .expression hderives⟩
  next =>
    obtain ⟨value, hvalue, rfl⟩ := hcases
    obtain ⟨ts, hts, hderives⟩ := hexpression.expression _ _ _ hvalue
    obtain ⟨token, rest, rfl, _⟩ := Derives.head hderives
    obtain rfl := hts.buffered_eq
    exact ⟨_, hts, .expression hderives⟩

theorem read_ifStatement {word : Token} (hword : word.kind = .keyword .if) :
    Sound ((bounded digits depth).ifStatement enclosing word)
      fun ts tree => DerivesStmt enclosing (.choice tree) (word :: ts) := by
  intro stream tree next hyields
  obtain ⟨condition, s₁, hcondition, body, s₂, hbody, hrest⟩ := yields_ifStatement.mp hyields
  obtain ⟨_, hts, opening, ts, closing, rfl, hopening, hderives, hclosing⟩ :=
    hsound.parenthesized _ _ _ hcondition
  obtain ⟨us, hus, hblock⟩ := hsound.block _ _ _ hbody
  have hfront := hts.append hus
  obtain ⟨_, rfl, rfl⟩ | ⟨elseWord, helse, s₃, hhands, hother⟩ := hrest
  · refine ⟨_, hfront, ?_⟩
    simpa using DerivesStmt.onlyIf hword hopening hderives hclosing hblock
  obtain ⟨_, other, hother', rfl⟩ | ⟨ifWord, hif, s₄, hhands', other, hother', rfl⟩ := hother
  · obtain ⟨vs, hvs, hother⟩ := hsound.block _ _ _ hother'
    refine ⟨_, hfront.append (.cons hhands hvs), ?_⟩
    simpa using DerivesStmt.elseBlock hword hopening hderives hclosing hblock helse hother
  · obtain rfl := hhands'.buffered_eq
    obtain ⟨vs, hvs, hother⟩ := hsound.ifStatement hif _ _ _ hother'
    refine ⟨_, hfront.append (.cons hhands (.cons hhands' hvs)), ?_⟩
    simpa using DerivesStmt.elseIf hword hopening hderives hclosing hblock helse hother

theorem read_forStatement {word : Token} (hword : word.kind = .keyword .for) :
    Sound ((bounded digits depth).forStatement enclosing word)
      fun ts tree => DerivesStmt enclosing (.statement tree) (word :: ts) := by
  intro stream tree next hyields
  have hexpression := bounded_soundExpressions digits depth enclosing
  obtain ⟨opening, hopening, s₁, hhands₁, first, s₂, hfirst, semicolon, hsemicolon, s₃, hhands₂,
    condition, s₄, hcondition, semicolon', hsemicolon', s₅, hhands₃, step, s₆, hstep, closing,
    hclosing, s₇, hhands₄, body, hbody, rfl⟩ := yields_forStatement.mp hyields
  have hfirst' : ∃ ts, s₁.Passes ts s₂ ∧ Optionally (IsSimple enclosing) ts first := by
    split at hfirst
    next =>
      obtain ⟨rfl, rfl⟩ := hfirst
      exact ⟨[], .nil _, .absent⟩
    next =>
      obtain ⟨simple, hsimple, rfl⟩ := hfirst
      obtain ⟨ts, hts, hderives⟩ := hsound.simpleStatement _ _ _ hsimple
      exact ⟨ts, hts, .present hderives⟩
  obtain ⟨ts, hts, hfirst⟩ := hfirst'
  obtain ⟨us, hus, hcondition⟩ := hexpression.read_expressionUnless _ _ _ hcondition
  obtain ⟨vs, hvs, hstep⟩ := hexpression.read_expressionUnless _ _ _ hstep
  obtain ⟨ws, hws, hbody⟩ := hsound.block _ _ _ hbody
  refine ⟨_, (((Passes.cons hhands₁ hts).append (.cons hhands₂ hus)).append
    (.cons hhands₃ hvs)).append (.cons hhands₄ hws), ?_⟩
  exact .forLoop hword hopening hfirst hsemicolon hcondition hsemicolon' hstep hclosing hbody

theorem read_statement :
    Sound ((bounded digits depth).statement enclosing)
      fun ts tree => DerivesStmt enclosing (.statement tree) ts := by
  intro stream tree next hyields
  have hcases := yields_statement.mp hyields
  have hexpression := bounded_soundExpressions digits depth enclosing
  split at hcases
  next =>
    obtain ⟨ts, hts, hderives⟩ := hsound.block _ _ _ hcases
    exact ⟨ts, hts, .ofBlock hderives⟩
  next hkind =>
    obtain ⟨middle, hhands, htree⟩ := hcases
    obtain ⟨ts, hts, hderives⟩ := hsound.ifStatement hkind _ _ _ htree
    exact ⟨_, .cons hhands hts, .ofChoice hderives⟩
  next hkind =>
    obtain ⟨middle, hhands, condition, s₁, hcondition, body, hbody, rfl⟩ := hcases
    obtain ⟨_, hts, opening, ts, closing, rfl, hopening, hderives, hclosing⟩ :=
      hsound.parenthesized _ _ _ hcondition
    obtain ⟨us, hus, hblock⟩ := hsound.block _ _ _ hbody
    refine ⟨_, .cons hhands (hts.append hus), ?_⟩
    simpa using DerivesStmt.whileLoop hkind hopening hderives hclosing hblock
  next hkind =>
    obtain ⟨middle, hhands, htree⟩ := hcases
    obtain ⟨ts, hts, hderives⟩ := hsound.forStatement hkind _ _ _ htree
    exact ⟨_, .cons hhands hts, hderives⟩
  next hkind =>
    obtain ⟨middle, hhands, value, s₁, hvalue, ⟨semicolon, hsemicolon, hhands'⟩, rfl⟩ := hcases
    obtain ⟨ts, hts, hderives⟩ := hexpression.read_expressionUnless _ _ _ hvalue
    exact ⟨_, (Passes.cons hhands hts).append (.single hhands'),
      .returnValue hkind hderives hsemicolon⟩
  next hkind =>
    obtain ⟨middle, hhands, ⟨semicolon, hsemicolon, hhands'⟩, rfl⟩ := hcases
    exact ⟨_, .cons hhands (.single hhands'), .breakLoop hkind hsemicolon⟩
  next hkind =>
    obtain ⟨middle, hhands, ⟨semicolon, hsemicolon, hhands'⟩, rfl⟩ := hcases
    exact ⟨_, .cons hhands (.single hhands'), .continueLoop hkind hsemicolon⟩
  next =>
    obtain ⟨simple, s₁, hsimple, ⟨semicolon, hsemicolon, hhands⟩, rfl⟩ := hcases
    obtain ⟨ts, hts, hderives⟩ := hsound.simpleStatement _ _ _ hsimple
    exact ⟨_, hts.append (.single hhands), .ofSimple hderives hsemicolon⟩

end SoundStatements

/-- At every nesting depth the rules of statements read phrases of the grammar. -/
theorem bounded_soundStatements (digits : Option Nat) (depth : Nat) (enclosing : Option String) :
    (bounded digits depth).SoundStatements enclosing := by
  induction depth with
  | zero =>
      have hnone {α : Type} {rule : Rule α} {stream next value} :
          ¬ Yields ((bounded digits 0).read enclosing rule) stream value next := by
        simp [Yields, bounded_zero_read]
      constructor
      case ifStatement => exact fun _ _ _ _ hyields => (hnone hyields).elim
      case forStatement => exact fun _ _ _ _ hyields => (hnone hyields).elim
      all_goals exact fun _ _ _ hyields => (hnone hyields).elim
  | succ depth ih =>
      have hexpression := bounded_soundExpressions digits depth enclosing
      exact {
        parenthesized := hexpression.read_parenthesized
        block := ih.read_block
        statement := ih.read_statement
        simpleStatement := ih.read_simpleStatement
        declaration := hexpression.read_declaration
        ifStatement := ih.read_ifStatement
        forStatement := ih.read_forStatement }

end ClassLang.Level
