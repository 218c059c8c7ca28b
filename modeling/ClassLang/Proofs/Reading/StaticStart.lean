import ClassLang.Proofs.Reading.Limits

/-! # Expressions that start with a type

A statement that starts with a type takes the type before it is known to be an
expression, and then has the expression read from the member of the type on.
This is how an expression that starts with a type is read anyway.
-/

namespace ClassLang

namespace Parser

variable {α β : Type} {stream : TokenStream}

/-- On one stream, parsers that answer the same can go on in the same way. -/
theorem bind_congr_at {parser other : Parser α} {continuation : α → Parser β}
    (heq : parser stream = other stream) :
    (parser >>= continuation) stream = (other >>= continuation) stream := by
  change EStateM.bind parser continuation stream = EStateM.bind other continuation stream
  unfold EStateM.bind
  rw [heq]

theorem peek_bind_apply {continuation : Token → Parser β} :
    (peek >>= continuation) stream = continuation stream.buffered stream :=
  rfl

/-- What is handed out is the token that has been looked at. -/
theorem advance_bind_congr {continuation other : Token → Parser β}
    (hend : stream.buffered.kind ≠ .endOfText)
    (heq : ∀ next, stream.Hands stream.buffered next →
      continuation stream.buffered next = other stream.buffered next) :
    (advance >>= continuation) stream = (advance >>= other) stream := by
  change EStateM.bind advance continuation stream = EStateM.bind advance other stream
  unfold EStateM.bind
  split
  next token next hadvance =>
    have hhands := (yields_advance hend).mp hadvance
    obtain rfl := hhands.buffered_eq
    exact heq next hhands
  next => rfl

/-- A parser fails where its first part does. -/
theorem Nests.bind {parser : Parser α} {continuation : α → Parser β}
    (hnests : parser.Nests stream) : (parser >>= continuation).Nests stream := by
  obtain ⟨failure, next, herror, hnesting⟩ := hnests
  exact ⟨failure, next, bind_of_error herror, hnesting⟩

theorem Nests.of_eq {parser other : Parser α} (hnests : other.Nests stream)
    (heq : parser stream = other stream) : parser.Nests stream := by
  obtain ⟨failure, next, herror, hnesting⟩ := hnests
  exact ⟨failure, next, heq.trans herror, hnesting⟩

/-- Where rules nest too deep for a parser, they do so for what approximates it. -/
theorem Nests.of_approximates {parser other : Parser α} (hnests : other.Nests stream)
    (happrox : parser.Approximates Failure.IsNesting other) : parser.Nests stream := by
  rcases happrox stream with hnests' | heq
  · exact hnests'
  · exact hnests.of_eq heq

/-- What is approximated on a stream may be written in another way there. -/
theorem Approximates.nests_or_eq {parser other inner outer : Parser α}
    (happrox : inner.Approximates Failure.IsNesting outer) (hinner : parser stream = inner stream)
    (houter : other stream = outer stream) :
    parser.Nests stream ∨ other stream = parser stream := by
  rcases happrox stream with hnests | heq
  · exact .inl (Nests.of_eq hnests hinner)
  · exact .inr (houter.trans (heq.symm.trans hinner.symm))

end Parser

namespace Level

open ClassLang.Parser

variable {digits : Option Nat} {depth : Nat} {enclosing : Option String} {stream : TokenStream}

/-- A member of the type that comes next. -/
def typeMember (level : Level) (enclosing : Option String) : Parser (Expr Token) := do
  level.read enclosing (.staticMember (← advance))

/-- An operand that starts with the type that comes next. -/
def typeOperand (level outer : Level) (enclosing : Option String) : Parser (Expr Token) := do
  outer.read enclosing (.suffixed (some (← level.typeMember enclosing)))

/-- An expression that starts with the type that comes next. -/
def typeExpression (level middle outer : Level) (enclosing : Option String) :
    Parser (Expr Token) := do
  outer.read enclosing (.expression (some (← level.typeOperand middle enclosing)))

/-- Such an expression as a statement. -/
def typeStatement (level middle outer : Level) (enclosing : Option String) (token : Token) :
    Parser (Stmt Token) := do
  return .expression token (← level.typeExpression middle outer enclosing)

theorem primary_of_typename {level : Level} (htype : stream.buffered.kind = .typename) :
    level.primary enclosing stream = level.typeMember enclosing stream := by
  rw [primary, peek_bind_apply]
  simp only [htype]
  exact advance_bind_congr (by simp [htype]) fun _ _ => rfl

/-- No operator stands before a type. -/
theorem unary_of_typename {level : Level} (htype : stream.buffered.kind = .typename) :
    level.unary enclosing stream = level.read enclosing (.suffixed none) stream := by
  have htake : takeSymbol? Symbol.leading stream = .ok none stream := by
    rw [takeSymbol?, peek_bind_apply]
    simp only [htype]
    rfl
  change EStateM.bind _ _ stream = _
  unfold EStateM.bind
  rw [htake]

theorem read_unary_of_typename (htype : stream.buffered.kind = .typename) :
    (bounded digits (depth + 3)).read enclosing .unary stream =
      (bounded digits depth).typeOperand (bounded digits (depth + 2)) enclosing stream := by
  calc (bounded digits (depth + 3)).read enclosing .unary stream
    _ = (bounded digits (depth + 1)).suffixed enclosing none stream := unary_of_typename htype
    _ = (bounded digits depth).typeOperand (bounded digits (depth + 2)) enclosing stream :=
        bind_congr_at (primary_of_typename htype)

/-- An expression that starts with a type is read from the operand at its beginning on. -/
theorem read_expression_of_typename (htype : stream.buffered.kind = .typename) :
    (bounded digits (depth + 7)).read enclosing (.expression none) stream =
      (bounded digits depth).typeExpression (bounded digits (depth + 2))
        (bounded digits (depth + 7)) enclosing stream := by
  have hbinary : (bounded digits (depth + 4)).read enclosing (.binary 1 none) stream =
      (do
        let left ← (bounded digits depth).typeOperand (bounded digits (depth + 2)) enclosing
        (bounded digits (depth + 4)).read enclosing (.binary 1 (some left))) stream :=
    bind_congr_at (read_unary_of_typename htype)
  have hconditional : (bounded digits (depth + 5)).read enclosing (.conditional none) stream =
      (do
        let left ← (bounded digits depth).typeOperand (bounded digits (depth + 2)) enclosing
        (bounded digits (depth + 5)).read enclosing (.conditional (some left))) stream := by
    have hread (left : Option (Expr Token)) :
        (bounded digits (depth + 5)).read enclosing (.conditional left) =
          (bounded digits (depth + 4)).conditional enclosing left := rfl
    simp only [hread, conditional]
    rw [bind_congr_at hbinary, bind_assoc]
  have hread (left : Option (Expr Token)) :
      (bounded digits (depth + 7)).read enclosing (.expression left) =
        (bounded digits (depth + 5)).assignment enclosing left := rfl
  simp only [typeExpression, hread, assignment]
  rw [bind_congr_at hconditional, bind_assoc]

/-- So is an expression statement, if no name stands behind the type. -/
theorem read_simpleStatement_of_typename (htype : stream.buffered.kind = .typename)
    (hnext : ∀ next, stream.Hands stream.buffered next → next.buffered.kind ≠ .name) :
    (bounded digits (depth + 1)).read enclosing .simpleStatement stream =
      (bounded digits depth).typeStatement (bounded digits depth) (bounded digits depth) enclosing
        stream.buffered stream := by
  rw [bounded_succ_read, apply, simpleStatement, peek_bind_apply]
  simp only [htype, typeStatement, typeExpression, typeOperand, typeMember, bind_assoc]
  refine advance_bind_congr (by simp [htype]) fun next hhands => ?_
  have hname : Yields (isAt .name) next false next :=
    yields_isAt.mpr ⟨(decide_eq_false (hnext next hhands)).symm, rfl⟩
  rw [bind_of_yields hname]
  rfl

/-- The member, the operand and the whole may each be read at a greater depth. -/
theorem typeStatement_approximates {inner middle outer inner' middle' outer' : Nat}
    (hinner : inner ≤ inner') (hmiddle : middle ≤ middle') (houter : outer ≤ outer')
    {token : Token} :
    ((bounded digits inner).typeStatement (bounded digits middle) (bounded digits outer) enclosing
        token).Approximates Failure.IsNesting
      ((bounded digits inner').typeStatement (bounded digits middle') (bounded digits outer')
        enclosing token) := by
  have hmember : ((bounded digits inner).typeMember enclosing).Approximates Failure.IsNesting
      ((bounded digits inner').typeMember enclosing) :=
    .bind .refl fun type => (bounded_approximates hinner).read enclosing (.staticMember type)
  have hoperand : ((bounded digits inner).typeOperand (bounded digits middle)
      enclosing).Approximates Failure.IsNesting
        ((bounded digits inner').typeOperand (bounded digits middle') enclosing) :=
    hmember.bind fun member =>
      (bounded_approximates hmiddle).read enclosing (.suffixed (some member))
  have hwhole : ((bounded digits inner).typeExpression (bounded digits middle)
      (bounded digits outer) enclosing).Approximates Failure.IsNesting
        ((bounded digits inner').typeExpression (bounded digits middle') (bounded digits outer')
          enclosing) :=
    hoperand.bind fun left =>
      (bounded_approximates houter).read enclosing (.expression (some left))
  exact hwhole.bind fun _ => .refl

/-- Seven rules are in progress where the type at the beginning of an expression is taken. -/
theorem nests_expression_of_typename (htype : stream.buffered.kind = .typename)
    (hdepth : depth ≤ 6) :
    ((bounded digits depth).read enclosing (.expression none)).Nests stream := by
  have hprimary : ((bounded digits 0).read enclosing .primary).Nests stream :=
    ⟨_, stream, rfl, rfl⟩
  have hsuffixed : ((bounded digits 1).read enclosing (.suffixed none)).Nests stream :=
    hprimary.bind
  have hunary : ((bounded digits 2).read enclosing .unary).Nests stream :=
    hsuffixed.of_eq (unary_of_typename htype)
  have hbinary : ((bounded digits 3).read enclosing (.binary 1 none)).Nests stream :=
    hunary.bind
  have hconditional : ((bounded digits 4).read enclosing (.conditional none)).Nests stream :=
    hbinary.bind
  have hassignment : ((bounded digits 5).read enclosing (.assignment none)).Nests stream :=
    hconditional.bind
  have hexpression : ((bounded digits 6).read enclosing (.expression none)).Nests stream :=
    hassignment
  exact hexpression.of_approximates ((bounded_approximates hdepth).read enclosing _)

/-- **A statement that starts with a type and is no declaration is read as an expression is that
starts there: the same tree, with the same tokens left, or the same failure at the same place.**
Only the nesting of rules differs. What is read as an expression takes no more than one rule around
it as a statement, and what is read as a statement takes no more than six around it as an
expression. -/
theorem simpleStatement_reads_expression (htype : stream.buffered.kind = .typename)
    (hnext : ∀ next, stream.Hands stream.buffered next → next.buffered.kind ≠ .name) :
    let statement (depth : Nat) : Parser (Stmt Token) :=
      (bounded digits depth).read enclosing .simpleStatement
    let expression (depth : Nat) : Parser (Stmt Token) := do
      return .expression stream.buffered
        (← (bounded digits depth).read enclosing (.expression none))
    (∀ depth other, (statement depth).Nests stream ∨ (expression other).Nests stream ∨
        statement depth stream = expression other stream) ∧
      ∀ depth, ((expression depth).Nests stream ∨
          statement (depth + 1) stream = expression depth stream) ∧
        ((statement depth).Nests stream ∨
          expression (depth + 6) stream = statement depth stream) := by
  intro statement expression
  have hexpression (depth : Nat) : (expression depth).Nests stream ∨
      statement (depth + 1) stream = expression depth stream := by
    rcases Nat.lt_or_ge depth 7 with hdepth | hdepth
    · exact .inl (nests_expression_of_typename htype (by omega)).bind
    · obtain ⟨depth, rfl⟩ := Nat.exists_eq_add_of_le' hdepth
      refine Approximates.nests_or_eq (typeStatement_approximates ?_ ?_ ?_)
        (bind_congr_at (read_expression_of_typename htype))
        (read_simpleStatement_of_typename htype hnext) <;> omega
  have hstatement (depth : Nat) : (statement depth).Nests stream ∨
      expression (depth + 6) stream = statement depth stream := by
    cases depth with
    | zero => exact .inl ⟨_, stream, rfl, rfl⟩
    | succ depth =>
        refine Approximates.nests_or_eq (typeStatement_approximates ?_ ?_ ?_)
          (read_simpleStatement_of_typename htype hnext)
          (bind_congr_at (read_expression_of_typename htype)) <;> omega
  have hdeeper {shallow deep : Nat} (hle : shallow ≤ deep) : (expression shallow).Nests stream ∨
      expression shallow stream = expression deep stream :=
    ((bounded_approximates hle).read enclosing _).bind (fun _ => .refl) stream
  refine ⟨fun depth other => ?_, fun depth => ⟨hexpression depth, hstatement depth⟩⟩
  -- Both are the expression at some depth, and of two depths the greater answers no less.
  rcases hstatement depth with hnests | heq
  · exact .inl hnests
  rcases Nat.le_total other (depth + 6) with hle | hle
  · rcases hdeeper hle with hnests | hother
    · exact .inr (.inl hnests)
    · exact .inr (.inr (hother.trans heq).symm)
  · rcases hdeeper hle with hnests | hother
    · exact .inl (hnests.of_eq heq.symm)
    · exact .inr (.inr (heq.symm.trans hother))

/-- Assigning to a sum that starts with a field of a type fails either way, at the equals sign. -/
theorem simpleStatement_reads_expression_unassignable :
    let type : Token := ⟨.typename, some "Point", 0, 5⟩
    let equals : Token := ⟨.symbol .assign, none, 15, 16⟩
    let stream := TokenStream.ofTokens
      [type, ⟨.symbol .dot, none, 5, 6⟩, ⟨.name, some "size", 6, 10⟩, ⟨.symbol .plus, none, 11, 12⟩,
        ⟨.int, some "1", 13, 14⟩, equals, ⟨.int, some "2", 17, 18⟩]
    type.kind = .typename ∧ (∀ next, stream.Hands type next → next.buffered.kind ≠ .name) ∧
      ∃ next, (bounded none 12).read none .simpleStatement stream =
          .error (.grammatical ⟨.invalidAssignmentTarget, equals⟩) next ∧
        (do return Stmt.expression type (← (bounded none 18).read none (.expression none))) stream =
          .error (.grammatical ⟨.invalidAssignmentTarget, equals⟩) next := by
  intro type equals stream
  have hnext : ∀ next, stream.Hands type next → next.buffered.kind ≠ .name := by
    intro next hhands
    obtain ⟨-, rfl⟩ := hhands.unique (TokenStream.hands_ofTokens (by decide))
    decide
  have hfails : (match (bounded none 12).read none .simpleStatement stream with
      | .error failure _ => decide (failure = .grammatical ⟨.invalidAssignmentTarget, equals⟩)
      | .ok .. => false) = true := by decide +kernel
  obtain ⟨next, hstatement⟩ : ∃ next, (bounded none 12).read none .simpleStatement stream =
      .error (.grammatical ⟨.invalidAssignmentTarget, equals⟩) next := by
    split at hfails
    next failure next heq => exact ⟨next, of_decide_eq_true hfails ▸ heq⟩
    next => contradiction
  refine ⟨rfl, hnext, next, hstatement, ?_⟩
  rcases ((@simpleStatement_reads_expression none none stream rfl hnext).2 12).2 with hnests | heq
  · obtain ⟨failure, _, herror, hnesting⟩ := hnests
    obtain ⟨rfl, -⟩ := EStateM.Result.error.inj (herror.symm.trans hstatement)
    exact absurd hnesting (by simp [Failure.IsNesting])
  · exact heq.trans hstatement

end Level

end ClassLang
