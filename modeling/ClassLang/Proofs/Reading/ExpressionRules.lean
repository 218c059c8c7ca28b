import ClassLang.Grammar.Expression
import ClassLang.Proofs.Reading.Outcome

/-! # What the rules of expressions yield

One law for each rule of expressions: which tokens it hands out, by which rules
it goes on, and which tree it builds. Operands that have been read before are
not yet considered, except where a rule always has one.
-/

namespace ClassLang.Level

open TokenStream ClassLang.Parser

variable {level : Level} {enclosing : Option String} {stream next : TokenStream}
  {tree : Expr Token}

theorem yields_assignment {left : Option (Expr Token)} :
    Yields (level.assignment enclosing left) stream tree next ↔
      ∃ target middle, Yields (level.read enclosing (.conditional left)) stream target middle ∧
        ((∀ operator ∈ Symbol.assignments, middle.buffered.kind ≠ .symbol operator) ∧
            tree = target ∧ next = middle ∨
          ∃ token operator, token.kind = .symbol operator ∧ operator ∈ Symbol.assignments ∧
            ∃ after, middle.Hands token after ∧
              ∃ value, Yields (level.read enclosing (.assignment none)) after value next ∧
                target.assigned? operator value = some tree) := by
  rw [assignment, yields_bind]
  simp only [yields_takeSymbol?_bind]
  simp only [yields_bind, yields_pure]
  constructor
  · rintro ⟨target, middle, htarget, hnone | ⟨token, operator, after, hkind, hmem, hhands, value,
      last, hvalue, hassigned⟩⟩
    · exact ⟨target, middle, htarget, .inl hnone⟩
    · split at hassigned
      next result hresult =>
        obtain ⟨rfl, rfl⟩ := yields_pure.mp hassigned
        exact ⟨target, middle, htarget,
          .inr ⟨token, operator, hkind, hmem, after, hhands, value, hvalue, hresult⟩⟩
      next => exact absurd hassigned not_yields_refuse
  · rintro ⟨target, middle, htarget, hnone | ⟨token, operator, hkind, hmem, after, hhands, value,
      hvalue, hassigned⟩⟩
    · exact ⟨target, middle, htarget, .inl hnone⟩
    · refine ⟨target, middle, htarget,
        .inr ⟨token, operator, after, hkind, hmem, hhands, value, next, hvalue, ?_⟩⟩
      simp [hassigned]

theorem yields_conditional {left : Option (Expr Token)} :
    Yields (level.conditional enclosing left) stream tree next ↔
      ∃ condition middle,
        Yields (level.read enclosing (.binary 1 left)) stream condition middle ∧
        (middle.buffered.kind ≠ .symbol .question ∧ tree = condition ∧ next = middle ∨
          ∃ question, question.kind = .symbol .question ∧ ∃ s₁, middle.Hands question s₁ ∧
            ∃ holds s₂, Yields (level.read enclosing (.expression none)) s₁ holds s₂ ∧
              ∃ colon, colon.kind = .symbol .colon ∧ ∃ s₃, s₂.Hands colon s₃ ∧
                ∃ fails, Yields (level.read enclosing (.conditional none)) s₃ fails next ∧
                  tree = .operator condition.tag .conditional [condition, holds, fails]) := by
  simp [conditional, yields_take?_bind]

theorem yields_unary :
    Yields (level.unary enclosing) stream tree next ↔
      ((∀ operator ∈ Symbol.leading, stream.buffered.kind ≠ .symbol operator) ∧
          Yields (level.read enclosing (.suffixed none)) stream tree next) ∨
        ∃ token operator, token.kind = .symbol operator ∧ operator ∈ Symbol.leading ∧
          ∃ middle, stream.Hands token middle ∧
            ∃ operand, Yields (level.read enclosing .unary) middle operand next ∧
              tree = .operator token (.symbol operator) [operand] := by
  simp [unary, yields_takeSymbol?_bind]

theorem yields_staticMember {owner : Token} :
    Yields (level.staticMember enclosing owner) stream tree next ↔
      ∃ dot, dot.kind = .symbol .dot ∧ ∃ s₁, stream.Hands dot s₁ ∧
        ∃ name, name.kind = .name ∧ ∃ s₂, s₁.Hands name s₂ ∧
          if s₂.buffered.kind = .symbol .parenOpen then
            ∃ arguments, Yields (level.read enclosing .expressionList) s₂ arguments next ∧
              tree = .callStatic owner (some owner.payload) name.payload arguments
          else tree = .getStatic owner owner.payload name.payload ∧ next = s₂ := by
  simp [staticMember]

theorem yields_callOrName {token : Token} :
    Yields (level.callOrName enclosing token) stream tree next ↔
      if stream.buffered.kind = .symbol .parenOpen then
        ∃ arguments, Yields (level.read enclosing .expressionList) stream arguments next ∧
          tree = .callStatic token enclosing token.payload arguments
      else tree = .name token token.payload ∧ next = stream := by
  simp [callOrName]

theorem yields_named {token : Token} :
    Yields (level.named enclosing token) stream tree next ↔
      if token.data = some "new" ∧ stream.buffered.kind = .typename then
        ∃ type, type.kind = .typename ∧ ∃ middle, stream.Hands type middle ∧
          ∃ arguments, Yields (level.read enclosing .expressionList) middle arguments next ∧
            tree = .new token type.payload arguments
      else Yields (level.callOrName enclosing token) stream tree next := by
  by_cases hnew : token.data = some "new" <;>
    by_cases htype : stream.buffered.kind = .typename <;> simp [named, hnew, htype]

theorem yields_integer {token : Token} :
    Yields (level.integer token) stream tree next ↔
      (level.integerDigits.any (· < token.payload.toList.length) = false) ∧
        tree = .int token (Decimal.digitsValue token.payload.toList) ∧ next = stream := by
  simp [integer]

theorem yields_joinBinary {least : Nat} {left : Expr Token} {joined : Option (Expr Token)} :
    Yields (level.joinBinary enclosing least left) stream joined next ↔
      (stream.buffered.precedence < least ∧ joined = none ∧ next = stream) ∨
        ∃ operator precedence, stream.buffered.binary? = some (operator, precedence) ∧
          least ≤ precedence ∧ ∃ middle, stream.Hands stream.buffered middle ∧
            ∃ right,
              Yields (level.read enclosing (.binary (precedence + 1) none)) middle right next ∧
              joined = some (.operator left.tag (.symbol operator) [left, right]) := by
  rw [joinBinary, yields_peek_bind]
  cases hbinary : stream.buffered.binary? with
  | none =>
      -- where every token is taken, this one has no right operand
      by_cases hleast : stream.buffered.precedence < least <;> simp [hleast]
  | some found =>
      obtain ⟨operator, precedence⟩ := found
      have hprecedence : stream.buffered.precedence = precedence := by
        rw [Token.precedence, hbinary, Option.elim_some]
      have hend : stream.buffered.kind ≠ .endOfText := by
        intro hkind
        simp [Token.binary?, hkind] at hbinary
      by_cases hleast : precedence < least
      · simp [hprecedence, hleast, Nat.not_le.mpr hleast]
      · simp only [hprecedence, hleast, if_false, false_and, false_or, yields_advance_bind hend,
          yields_bind, yields_pure]
        constructor
        · rintro ⟨middle, hhands, right, _, hright, rfl, rfl⟩
          exact ⟨operator, precedence, rfl, Nat.not_lt.mp hleast, middle, hhands, right, hright, rfl⟩
        · rintro ⟨_, _, hfound, _, middle, hhands, right, hright, rfl⟩
          obtain ⟨rfl, rfl⟩ := Prod.mk.inj (Option.some.inj hfound)
          exact ⟨middle, hhands, right, next, hright, rfl, rfl⟩

theorem yields_binary {least : Nat} :
    Yields (level.binary enclosing least none) stream tree next ↔
      ∃ first middle, Yields (level.read enclosing .unary) stream first middle ∧
        Yields (iterate (level.joinBinary enclosing least) first) middle tree next := by
  simp [binary]

/-- After an operand that has been read only operators are left to join. -/
theorem yields_binary_some {least : Nat} {left : Expr Token} :
    Yields (level.binary enclosing least (some left)) stream tree next ↔
      Yields (iterate (level.joinBinary enclosing least) left) stream tree next := by
  simp [binary]

theorem yields_applyTrailing {operand : Expr Token} {applied : Option (Expr Token)} :
    Yields (applyTrailing operand) stream applied next ↔
      ((∀ operator ∈ Symbol.trailing, stream.buffered.kind ≠ .symbol operator) ∧
          applied = none ∧ next = stream) ∨
        ∃ token operator, token.kind = .symbol operator ∧ operator ∈ Symbol.trailing ∧
          stream.Hands token next ∧
            applied = some (.operator operand.tag (.symbol operator) [operand]) := by
  simp [applyTrailing, yields_takeSymbol?_bind]

theorem yields_suffixed :
    Yields (level.suffixed enclosing none) stream tree next ↔
      ∃ first s₁, Yields (level.read enclosing .primary) stream first s₁ ∧
        ∃ operand s₂, Yields (level.read enclosing (.memberAccess first)) s₁ operand s₂ ∧
          Yields (iterate applyTrailing operand) s₂ tree next := by
  simp [suffixed]

/-- After a primary expression that has been read its members and operators follow. -/
theorem suffixed_some {first : Expr Token} :
    level.suffixed enclosing (some first) =
      level.read enclosing (.memberAccess first) >>= iterate applyTrailing :=
  pure_bind ..

theorem yields_accessMember {owner : Expr Token} {accessed : Option (Expr Token)} :
    Yields (level.accessMember enclosing owner) stream accessed next ↔
      (stream.buffered.kind ≠ .symbol .dot ∧ accessed = none ∧ next = stream) ∨
        ∃ dot, dot.kind = .symbol .dot ∧ ∃ s₁, stream.Hands dot s₁ ∧
          ∃ name, name.kind = .name ∧ ∃ s₂, s₁.Hands name s₂ ∧
            if s₂.buffered.kind = .symbol .parenOpen then
              ∃ arguments, Yields (level.read enclosing .expressionList) s₂ arguments next ∧
                accessed = some (.call dot owner name.payload arguments)
            else accessed = some (.get dot owner name.payload) ∧ next = s₂ := by
  simp [accessMember, yields_take?_bind]

/-- A primary expression takes its first token and goes on as this token says. -/
theorem yields_primary :
    Yields (level.primary enclosing) stream tree next ↔
      ∃ middle, stream.Hands stream.buffered middle ∧
        match stream.buffered.kind with
        | .keyword .this => tree = .this stream.buffered ∧ next = middle
        | .keyword .true => tree = .bool stream.buffered true ∧ next = middle
        | .keyword .false => tree = .bool stream.buffered false ∧ next = middle
        | .keyword .null => tree = .null stream.buffered ∧ next = middle
        | .int => Yields (level.integer stream.buffered) middle tree next
        | .float =>
            tree = .float stream.buffered (.ofLiteral stream.buffered.payload.toList) ∧
              next = middle
        | .string => tree = .string stream.buffered stream.buffered.payload ∧ next = middle
        | .symbol .parenOpen =>
            ∃ inner, Yields (level.read enclosing (.expression none)) middle tree inner ∧
              ∃ close, close.kind = .symbol .parenClose ∧ inner.Hands close next
        | .typename => Yields (level.read enclosing (.staticMember stream.buffered)) middle tree next
        | .name => Yields (level.named enclosing stream.buffered) middle tree next
        | _ => False := by
  rw [primary, yields_peek_bind]
  generalize hkind : stream.buffered.kind = kind
  split
  case h_8 =>
    refine (yields_advance_bind (by simp [hkind])).trans ?_
    simp only [yields_bind, yields_expectSymbol, yields_pure]
    refine exists_congr fun middle => and_congr_right fun _ => ?_
    constructor
    · rintro ⟨_, inner, hinner, close, _, ⟨hclose, hhands⟩, rfl, rfl⟩
      exact ⟨inner, hinner, close, hclose, hhands⟩
    · rintro ⟨inner, hinner, close, hclose, hhands⟩
      exact ⟨tree, inner, hinner, close, next, ⟨hclose, hhands⟩, rfl, rfl⟩
  case h_11 => simp
  all_goals
    refine (yields_advance_bind (by simp [hkind])).trans ?_
    simp

end ClassLang.Level
