import ClassLang.Grammar.Statement
import ClassLang.Proofs.Reading.Outcome

/-! # What the rules of statements yield

One law for each rule of statements, in the form of those for expressions:
which tokens it hands out, by which rules it goes on, which tree it builds.
-/

namespace ClassLang.Level

open TokenStream ClassLang.Parser

variable {level : Level} {enclosing : Option String} {stream next : TokenStream}

theorem yields_parenthesized {tree : Expr Token} :
    Yields (level.parenthesized enclosing) stream tree next ↔
      ∃ opening, opening.kind = .symbol .parenOpen ∧ ∃ middle, stream.Hands opening middle ∧
        ∃ inside inner, Yields (level.read enclosing (.expression none)) middle inside inner ∧
          (∃ closing, closing.kind = .symbol .parenClose ∧ inner.Hands closing next) ∧
            tree = inside := by
  simp [parenthesized]

theorem yields_block {tree : Stmt Token} :
    Yields (level.block enclosing) stream tree next ↔
      ∃ opening, opening.kind = .symbol .braceOpen ∧ ∃ middle, stream.Hands opening middle ∧
        ∃ trees, Yields (manyUntil (.symbol .braceClose) (level.read enclosing .statement))
          middle trees next ∧ tree = .block opening trees := by
  simp [block]

theorem yields_expressionUnless {close : Symbol} {value : Option (Expr Token)} :
    Yields (level.expressionUnless enclosing close) stream value next ↔
      if stream.buffered.kind = .symbol close then value = none ∧ next = stream
      else ∃ tree, Yields (level.read enclosing (.expression none)) stream tree next ∧
        value = some tree := by
  simp [expressionUnless]

theorem yields_firstValue {value : Option (Expr Token)} :
    Yields (level.firstValue enclosing) stream value next ↔
      (stream.buffered.kind ≠ .symbol .assign ∧ value = none ∧ next = stream) ∨
        ∃ equals, equals.kind = .symbol .assign ∧ ∃ middle, stream.Hands equals middle ∧
          ∃ tree, Yields (level.read enclosing (.expression none)) middle tree next ∧
            value = some tree := by
  simp [firstValue, yields_take?_bind]

theorem yields_declaration {token : Token} {type : String} {tree : Stmt Token} :
    Yields (level.declaration enclosing token type) stream tree next ↔
      ∃ name, name.kind = .name ∧ ∃ middle, stream.Hands name middle ∧
        ∃ value, Yields (level.firstValue enclosing) middle value next ∧
          tree = .declaration token type name.payload value := by
  simp [declaration]

/-- A simple statement is told by its first token, one that starts with a type also by the
second. -/
theorem yields_simpleStatement {tree : Stmt Token} :
    Yields (level.simpleStatement enclosing) stream tree next ↔
      match stream.buffered.kind with
      | .keyword .var =>
          ∃ middle, stream.Hands stream.buffered middle ∧
            Yields (level.read enclosing (.declaration stream.buffered "var")) middle tree next
      | .typename =>
          ∃ middle, stream.Hands stream.buffered middle ∧
            if middle.buffered.kind = .name then
              Yields (level.read enclosing (.declaration stream.buffered stream.buffered.payload))
                middle tree next
            else
              ∃ member s₁, Yields (level.read enclosing (.staticMember stream.buffered)) middle
                  member s₁ ∧
                ∃ left s₂, Yields (level.read enclosing (.suffixed (some member))) s₁ left s₂ ∧
                  ∃ value, Yields (level.read enclosing (.expression (some left))) s₂ value next ∧
                    tree = .expression stream.buffered value
      | _ =>
          ∃ value, Yields (level.read enclosing (.expression none)) stream value next ∧
            tree = .expression stream.buffered value := by
  rw [simpleStatement, yields_peek_bind]
  generalize hkind : stream.buffered.kind = kind
  split
  case h_3 => simp
  all_goals
    refine (yields_advance_bind (by simp [hkind])).trans ?_
    simp

theorem yields_ifStatement {word : Token} {tree : Stmt Token} :
    Yields (level.ifStatement enclosing word) stream tree next ↔
      ∃ condition s₁, Yields (level.read enclosing .parenthesized) stream condition s₁ ∧
        ∃ body s₂, Yields (level.read enclosing .block) s₁ body s₂ ∧
          (s₂.buffered.kind ≠ .keyword .else ∧ tree = .ifElse word condition body none ∧
              next = s₂ ∨
            ∃ elseWord, elseWord.kind = .keyword .else ∧ ∃ s₃, s₂.Hands elseWord s₃ ∧
              (s₃.buffered.kind ≠ .keyword .if ∧
                  (∃ other, Yields (level.read enclosing .block) s₃ other next ∧
                    tree = .ifElse word condition body (some other)) ∨
                ∃ ifWord, ifWord.kind = .keyword .if ∧ ∃ s₄, s₃.Hands ifWord s₄ ∧
                  ∃ other, Yields (level.read enclosing (.ifStatement s₃.buffered)) s₄ other next ∧
                    tree = .ifElse word condition body (some other))) := by
  simp [ifStatement, yields_take?_bind]

theorem yields_forStatement {word : Token} {tree : Stmt Token} :
    Yields (level.forStatement enclosing word) stream tree next ↔
      ∃ opening, opening.kind = .symbol .parenOpen ∧ ∃ s₁, stream.Hands opening s₁ ∧
        ∃ first s₂,
          (if s₁.buffered.kind = .symbol .semicolon then first = none ∧ s₂ = s₁
            else ∃ simple, Yields (level.read enclosing .simpleStatement) s₁ simple s₂ ∧
              first = some simple) ∧
        ∃ semicolon, semicolon.kind = .symbol .semicolon ∧ ∃ s₃, s₂.Hands semicolon s₃ ∧
        ∃ condition s₄, Yields (level.expressionUnless enclosing .semicolon) s₃ condition s₄ ∧
        ∃ semicolon', semicolon'.kind = .symbol .semicolon ∧ ∃ s₅, s₄.Hands semicolon' s₅ ∧
        ∃ step s₆, Yields (level.expressionUnless enclosing .parenClose) s₅ step s₆ ∧
        ∃ closing, closing.kind = .symbol .parenClose ∧ ∃ s₇, s₆.Hands closing s₇ ∧
        ∃ body, Yields (level.read enclosing .block) s₇ body next ∧
          tree = .forLoop word first condition step body := by
  simp only [forStatement, yields_expectSymbol_bind, yields_isAt_bind, yields_ite,
    decide_eq_true_eq, exists_and_left]
  refine exists_congr fun opening => and_congr_right fun _ => exists_congr fun s₁ =>
    and_congr_right fun _ => ?_
  split
  next =>
    conv => lhs; simp
    constructor
    · intro hrest
      exact ⟨none, s₁, ⟨rfl, rfl⟩, hrest⟩
    · rintro ⟨_, _, ⟨rfl, rfl⟩, hrest⟩
      exact hrest
  next =>
    conv => lhs; simp
    constructor
    · rintro ⟨simple, s₂, hsimple, hrest⟩
      exact ⟨some simple, s₂, ⟨simple, hsimple, rfl⟩, hrest⟩
    · rintro ⟨_, s₂, ⟨simple, hsimple, rfl⟩, hrest⟩
      exact ⟨simple, s₂, hsimple, hrest⟩

/-- A statement is told by its first token. -/
theorem yields_statement {tree : Stmt Token} :
    Yields (level.statement enclosing) stream tree next ↔
      match stream.buffered.kind with
      | .symbol .braceOpen => Yields (level.read enclosing .block) stream tree next
      | .keyword .if =>
          ∃ middle, stream.Hands stream.buffered middle ∧
            Yields (level.read enclosing (.ifStatement stream.buffered)) middle tree next
      | .keyword .while =>
          ∃ middle, stream.Hands stream.buffered middle ∧
            ∃ condition s₁, Yields (level.read enclosing .parenthesized) middle condition s₁ ∧
              ∃ body, Yields (level.read enclosing .block) s₁ body next ∧
                tree = .whileLoop stream.buffered condition body
      | .keyword .for =>
          ∃ middle, stream.Hands stream.buffered middle ∧
            Yields (level.read enclosing (.forStatement stream.buffered)) middle tree next
      | .keyword .return =>
          ∃ middle, stream.Hands stream.buffered middle ∧
            ∃ value s₁, Yields (level.expressionUnless enclosing .semicolon) middle value s₁ ∧
              (∃ semicolon, semicolon.kind = .symbol .semicolon ∧ s₁.Hands semicolon next) ∧
                tree = .returnValue stream.buffered value
      | .keyword .break =>
          ∃ middle, stream.Hands stream.buffered middle ∧
            (∃ semicolon, semicolon.kind = .symbol .semicolon ∧ middle.Hands semicolon next) ∧
              tree = .breakLoop stream.buffered
      | .keyword .continue =>
          ∃ middle, stream.Hands stream.buffered middle ∧
            (∃ semicolon, semicolon.kind = .symbol .semicolon ∧ middle.Hands semicolon next) ∧
              tree = .continueLoop stream.buffered
      | _ =>
          ∃ simple s₁, Yields (level.read enclosing .simpleStatement) stream simple s₁ ∧
            (∃ semicolon, semicolon.kind = .symbol .semicolon ∧ s₁.Hands semicolon next) ∧
              tree = simple := by
  rw [statement, yields_peek_bind]
  generalize hkind : stream.buffered.kind = kind
  split
  case h_1 | h_8 => simp
  all_goals
    refine (yields_advance_bind (by simp [hkind])).trans ?_
    simp

end ClassLang.Level
