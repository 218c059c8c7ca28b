import ClassLang.Tree.Statement
import ClassLang.Proofs.Syntax.Expression

/-! # The grammar of statements

Which sequences of tokens are statements, and of which trees. The bodies of
`if` and of loops are blocks, so an `else` belongs to the `if` before it. A
statement is tagged with its first token.
-/

namespace ClassLang.Syntax

/-- An expression. -/
def IsExpression (enclosing : Option String) (tokens : List Token) (tree : Expr Token) : Prop :=
  Derives enclosing (.assignment tree) tokens

/-- A part that may be missing. -/
inductive Optionally {α : Type} (item : List Token → α → Prop) : List Token → Option α → Prop
  | absent : Optionally item [] none
  | present {ts value} : item ts value → Optionally item ts (some value)

/-- An expression after an equals sign, or nothing. -/
inductive IsFirstValue (enclosing : Option String) : List Token → Option (Expr Token) → Prop
  | absent : IsFirstValue enclosing [] none
  | present {equals ts value} : equals.kind = .symbol .assign → IsExpression enclosing ts value →
      IsFirstValue enclosing (equals :: ts) (some value)

/-- A declaration or an expression, without the semicolon of a statement. -/
inductive IsSimple (enclosing : Option String) : List Token → Stmt Token → Prop
  -- Simple := TYPENAME NAME ("=" Expression)? | "var" NAME ("=" Expression)? | Expression
  | typed {type name ts value} : type.kind = .typename → name.kind = .name →
      IsFirstValue enclosing ts value →
      IsSimple enclosing (type :: name :: ts)
        (.declaration type type.payload name.payload value)
  | untyped {word name ts value} : word.kind = .keyword .var → name.kind = .name →
      IsFirstValue enclosing ts value →
      IsSimple enclosing (word :: name :: ts) (.declaration word "var" name.payload value)
  | expression {token ts value} : IsExpression enclosing (token :: ts) value →
      IsSimple enclosing (token :: ts) (.expression token value)

/-- The phrases of the grammar that contain statements, with what they stand for. -/
inductive StmtPhrase where
  | block (tree : Stmt Token)
  /-- An `if` with its bodies. -/
  | choice (tree : Stmt Token)
  | statement (tree : Stmt Token)
  /-- Statements one after the other. -/
  | sequence (trees : List (Stmt Token))

/-- The tokens are the phrase. -/
inductive DerivesStmt (enclosing : Option String) : StmtPhrase → List Token → Prop
  -- Block := "{" Statement* "}"
  | block {opening trees ts closing} : opening.kind = .symbol .braceOpen →
      DerivesStmt enclosing (.sequence trees) ts → closing.kind = .symbol .braceClose →
      DerivesStmt enclosing (.block (.block opening trees)) (opening :: ts ++ [closing])
  | nil : DerivesStmt enclosing (.sequence []) []
  | cons {tree trees ts us} : DerivesStmt enclosing (.statement tree) ts →
      DerivesStmt enclosing (.sequence trees) us →
      DerivesStmt enclosing (.sequence (tree :: trees)) (ts ++ us)
  -- If := "if" "(" Expression ")" Block ("else" (If | Block))?
  | onlyIf {word opening condition ts closing body us} : word.kind = .keyword .if →
      opening.kind = .symbol .parenOpen → IsExpression enclosing ts condition →
      closing.kind = .symbol .parenClose → DerivesStmt enclosing (.block body) us →
      DerivesStmt enclosing (.choice (.ifElse word condition body none))
        (word :: opening :: ts ++ closing :: us)
  | elseBlock {word opening condition ts closing body us elseWord other vs} :
      word.kind = .keyword .if → opening.kind = .symbol .parenOpen →
      IsExpression enclosing ts condition → closing.kind = .symbol .parenClose →
      DerivesStmt enclosing (.block body) us → elseWord.kind = .keyword .else →
      DerivesStmt enclosing (.block other) vs →
      DerivesStmt enclosing (.choice (.ifElse word condition body (some other)))
        (word :: opening :: ts ++ closing :: us ++ elseWord :: vs)
  | elseIf {word opening condition ts closing body us elseWord other vs} :
      word.kind = .keyword .if → opening.kind = .symbol .parenOpen →
      IsExpression enclosing ts condition → closing.kind = .symbol .parenClose →
      DerivesStmt enclosing (.block body) us → elseWord.kind = .keyword .else →
      DerivesStmt enclosing (.choice other) vs →
      DerivesStmt enclosing (.choice (.ifElse word condition body (some other)))
        (word :: opening :: ts ++ closing :: us ++ elseWord :: vs)
  -- Statement := Block | If | "while" "(" Expression ")" Block
  | ofBlock {tree ts} : DerivesStmt enclosing (.block tree) ts →
      DerivesStmt enclosing (.statement tree) ts
  | ofChoice {tree ts} : DerivesStmt enclosing (.choice tree) ts →
      DerivesStmt enclosing (.statement tree) ts
  | whileLoop {word opening condition ts closing body us} : word.kind = .keyword .while →
      opening.kind = .symbol .parenOpen → IsExpression enclosing ts condition →
      closing.kind = .symbol .parenClose → DerivesStmt enclosing (.block body) us →
      DerivesStmt enclosing (.statement (.whileLoop word condition body))
        (word :: opening :: ts ++ closing :: us)
  --   | "for" "(" Simple? ";" Expression? ";" Expression? ")" Block
  | forLoop {word opening first ts semicolon condition us semicolon' step vs closing body ws} :
      word.kind = .keyword .for → opening.kind = .symbol .parenOpen →
      Optionally (IsSimple enclosing) ts first → semicolon.kind = .symbol .semicolon →
      Optionally (IsExpression enclosing) us condition → semicolon'.kind = .symbol .semicolon →
      Optionally (IsExpression enclosing) vs step → closing.kind = .symbol .parenClose →
      DerivesStmt enclosing (.block body) ws →
      DerivesStmt enclosing (.statement (.forLoop word first condition step body))
        (word :: opening :: ts ++ semicolon :: us ++ semicolon' :: vs ++ closing :: ws)
  --   | "return" Expression? ";" | "break" ";" | "continue" ";" | Simple ";"
  | returnValue {word ts value semicolon} : word.kind = .keyword .return →
      Optionally (IsExpression enclosing) ts value → semicolon.kind = .symbol .semicolon →
      DerivesStmt enclosing (.statement (.returnValue word value)) (word :: ts ++ [semicolon])
  | breakLoop {word semicolon} : word.kind = .keyword .break →
      semicolon.kind = .symbol .semicolon →
      DerivesStmt enclosing (.statement (.breakLoop word)) [word, semicolon]
  | continueLoop {word semicolon} : word.kind = .keyword .continue →
      semicolon.kind = .symbol .semicolon →
      DerivesStmt enclosing (.statement (.continueLoop word)) [word, semicolon]
  | ofSimple {tree ts semicolon} : IsSimple enclosing ts tree →
      semicolon.kind = .symbol .semicolon →
      DerivesStmt enclosing (.statement tree) (ts ++ [semicolon])

/-- The body of a method. -/
def IsBlock (enclosing : Option String) (tokens : List Token) (tree : Stmt Token) : Prop :=
  DerivesStmt enclosing (.block tree) tokens

/-- The kinds of token with which statements start. -/
def statementStarts : List Kind :=
  [.symbol .braceOpen, .keyword .if, .keyword .while, .keyword .for, .keyword .return,
    .keyword .break, .keyword .continue] ++ .keyword .var :: expressionStarts

variable {enclosing : Option String} {ts : List Token} {tree : Stmt Token}

theorem IsExpression.head {tree : Expr Token} (hexpression : IsExpression enclosing ts tree) :
    ∃ token rest, ts = token :: rest ∧ token.kind ∈ expressionStarts :=
  Derives.head hexpression

theorem IsSimple.head (hsimple : IsSimple enclosing ts tree) :
    ∃ token rest, ts = token :: rest ∧ token.kind ∈ Kind.keyword .var :: expressionStarts := by
  cases hsimple with
  | typed htype => exact ⟨_, _, rfl, by simp [htype, expressionStarts, operandStarts]⟩
  | untyped hword => exact ⟨_, _, rfl, by simp [hword]⟩
  | expression hexpression =>
      obtain ⟨_, _, heq, hkind⟩ := hexpression.head
      obtain ⟨rfl, rfl⟩ := List.cons.inj heq
      exact ⟨_, _, rfl, List.mem_cons_of_mem _ hkind⟩

namespace DerivesStmt

theorem head_block (hblock : DerivesStmt enclosing (.block tree) ts) :
    ∃ token rest, ts = token :: rest ∧ token.kind = .symbol .braceOpen := by
  cases hblock with
  | block hopening => exact ⟨_, _, rfl, hopening⟩

theorem head_choice (hchoice : DerivesStmt enclosing (.choice tree) ts) :
    ∃ token rest, ts = token :: rest ∧ token.kind = .keyword .if := by
  cases hchoice with
  | onlyIf hword | elseBlock hword | elseIf hword => exact ⟨_, _, rfl, hword⟩

theorem head_statement (hstatement : DerivesStmt enclosing (.statement tree) ts) :
    ∃ token rest, ts = token :: rest ∧ token.kind ∈ statementStarts := by
  cases hstatement with
  | ofBlock hblock =>
      obtain ⟨token, rest, rfl, hkind⟩ := hblock.head_block
      exact ⟨token, rest, rfl, by simp [hkind, statementStarts]⟩
  | ofChoice hchoice =>
      obtain ⟨token, rest, rfl, hkind⟩ := hchoice.head_choice
      exact ⟨token, rest, rfl, by simp [hkind, statementStarts]⟩
  | ofSimple hsimple =>
      obtain ⟨token, rest, rfl, hkind⟩ := hsimple.head
      exact ⟨token, _, rfl, List.mem_append_right _ hkind⟩
  | whileLoop hword | forLoop hword | returnValue hword | breakLoop hword | continueLoop hword =>
      exact ⟨_, _, rfl, by simp [hword, statementStarts]⟩

/-- Statements one after the other are a sequence. -/
theorem sequence_iff {trees : List (Stmt Token)} :
    DerivesStmt enclosing (.sequence trees) ts ↔
      Sequence (fun ts tree => DerivesStmt enclosing (.statement tree) ts) ts trees := by
  constructor
  · intro hderives
    induction trees generalizing ts with
    | nil =>
        cases hderives
        exact .nil
    | cons first rest ih =>
        cases hderives with
        | cons hfirst hrest => exact .cons hfirst (ih hrest)
  · intro hsequence
    induction hsequence with
    | nil => exact .nil
    | cons hfirst _ ih => exact .cons hfirst ih

end DerivesStmt

end ClassLang.Syntax
