import ClassLang.Proofs.Reading.ExpressionGrammar
import ClassLang.Proofs.Reading.StatementSound

/-! # Every statement is read

As for expressions: a phrase of the grammar is read with its tree at every
sufficient nesting depth, where the token after it cannot belong to it. After
the body of an `if` this excludes an `else`, and nothing else.
-/

namespace ClassLang

open TokenStream ClassLang.Parser Syntax Filter

namespace Level

variable {digits : Option Nat} {depth : Nat} {enclosing : Option String}
  {stream middle next : TokenStream} {ts us vs ws : List Token}

/-- The level reads an expression wherever no more of it can follow. -/
def ReadsExpression (level : Level) (enclosing : Option String) (tokens : List Token)
    (tree : Expr Token) : Prop :=
  IsExpression enclosing tokens tree ∧
    level.Reads enclosing (.expression none) tokens tree (·.tightness < 1)

/-- The level reads a simple statement wherever no more of it can follow. -/
def ReadsSimple (level : Level) (enclosing : Option String) (tokens : List Token)
    (tree : Stmt Token) : Prop :=
  IsSimple enclosing tokens tree ∧
    level.Reads enclosing .simpleStatement tokens tree (·.tightness < 1)

/-- The level reads the phrase from the tokens. -/
def CoversStmt (level : Level) (enclosing : Option String) (tokens : List Token) :
    StmtPhrase → Prop
  | .block tree => level.Reads enclosing .block tokens tree fun _ => True
  | .choice tree =>
      ∀ word rest, tokens = word :: rest →
        level.Reads enclosing (.ifStatement word) rest tree (·.kind ≠ .keyword .else)
  | .statement tree => level.Reads enclosing .statement tokens tree (·.kind ≠ .keyword .else)
  | .sequence trees =>
      Sequence (fun ts tree => DerivesStmt enclosing (.statement tree) ts ∧
        level.Reads enclosing .statement ts tree (·.kind ≠ .keyword .else)) tokens trees

/-! ## Parts of statements -/

theorem ReadsExpression.parenthesized {tree : Expr Token} {opening closing : Token}
    (htree : (bounded digits depth).ReadsExpression enclosing ts tree)
    (hopening : opening.kind = .symbol .parenOpen) (hclosing : closing.kind = .symbol .parenClose) :
    (bounded digits (depth + 1)).Reads enclosing .parenthesized (opening :: ts ++ [closing]) tree
      fun _ => True := by
  intro stream next hpasses _
  obtain ⟨middle, hhands, hback⟩ := Passes.cons_iff.mp hpasses
  obtain ⟨inner, hts, hrest⟩ := Passes.append_iff.mp hback
  have hhands' := Passes.singleton_iff.mp hrest
  rw [bounded_succ_read]
  refine yields_parenthesized.mpr ⟨opening, hopening, middle, hhands, tree, inner, ?_,
    ⟨closing, hclosing, hhands'⟩, rfl⟩
  have hfollow := hhands'.tightness_lt_of_mark hclosing (by decide)
  exact htree.2 _ _ hts hfollow

theorem yields_expressionUnless_of {close : Symbol} {value : Option (Expr Token)}
    (hvalue : Optionally ((bounded digits depth).ReadsExpression enclosing) ts value)
    (hclose : Kind.symbol close ∉ expressionStarts) (hpasses : stream.Passes ts next)
    (hnext : next.buffered.kind = .symbol close) (htight : next.buffered.tightness < 1) :
    Yields ((bounded digits depth).expressionUnless enclosing close) stream value next := by
  rw [yields_expressionUnless]
  cases hvalue with
  | absent =>
      obtain rfl := Passes.nil_iff.mp hpasses
      rw [if_pos hnext]
      exact ⟨rfl, rfl⟩
  | @present _ tree htree =>
      obtain ⟨token, rest, rfl, hstart⟩ := htree.1.head
      rw [if_neg]
      · exact ⟨tree, htree.2 _ _ hpasses htight, rfl⟩
      · rw [hpasses.buffered_eq]
        exact fun hkind => hclose (hkind ▸ hstart)

/-- The tokens of a first value are read as it. -/
def ReadsFirstValue (level : Level) (enclosing : Option String) (tokens : List Token)
    (value : Option (Expr Token)) : Prop :=
  ∀ stream next, stream.Passes tokens next → next.buffered.tightness < 1 →
    Yields (level.firstValue enclosing) stream value next

theorem readsFirstValue_absent {level : Level} : level.ReadsFirstValue enclosing [] none := by
  intro stream next hpasses htight
  obtain rfl := Passes.nil_iff.mp hpasses
  exact yields_firstValue.mpr (.inl ⟨Token.not_assignment htight _ (by decide), rfl, rfl⟩)

theorem ReadsExpression.firstValue {level : Level} {tree : Expr Token} {equals : Token}
    (htree : level.ReadsExpression enclosing ts tree) (hequals : equals.kind = .symbol .assign) :
    level.ReadsFirstValue enclosing (equals :: ts) (some tree) := by
  intro stream next hpasses htight
  obtain ⟨middle, hhands, hts⟩ := Passes.cons_iff.mp hpasses
  exact yields_firstValue.mpr (.inr ⟨equals, hequals, middle, hhands, tree,
    htree.2 _ _ hts htight, rfl⟩)

theorem ReadsFirstValue.declaration {token name : Token} {type : String}
    {value : Option (Expr Token)} (hname : name.kind = .name)
    (hvalue : (bounded digits depth).ReadsFirstValue enclosing ts value) :
    (bounded digits (depth + 1)).Reads enclosing (.declaration token type) (name :: ts)
      (.declaration token type name.payload value) (·.tightness < 1) := by
  intro stream next hpasses htight
  obtain ⟨middle, hhands, hts⟩ := Passes.cons_iff.mp hpasses
  rw [bounded_succ_read]
  exact yields_declaration.mpr ⟨name, hname, middle, hhands, value, hvalue _ _ hts htight, rfl⟩

/-! ## Simple statements -/

theorem reads_typed {type name : Token} {value : Option (Expr Token)}
    (htype : type.kind = .typename) (hname : name.kind = .name)
    (hvalue : (bounded digits depth).ReadsFirstValue enclosing ts value) :
    (bounded digits (depth + 2)).Reads enclosing .simpleStatement (type :: name :: ts)
      (.declaration type type.payload name.payload value) (·.tightness < 1) := by
  intro stream next hpasses htight
  obtain ⟨middle, hhands, hback⟩ := Passes.cons_iff.mp hpasses
  obtain rfl := hhands.buffered_eq
  rw [bounded_succ_read]
  refine yields_simpleStatement.mpr ?_
  simp only [htype]
  refine ⟨middle, hhands, ?_⟩
  rw [if_pos (by rw [hback.buffered_eq]; exact hname)]
  exact hvalue.declaration hname _ _ hback htight

theorem reads_untyped {word name : Token} {value : Option (Expr Token)}
    (hword : word.kind = .keyword .var) (hname : name.kind = .name)
    (hvalue : (bounded digits depth).ReadsFirstValue enclosing ts value) :
    (bounded digits (depth + 2)).Reads enclosing .simpleStatement (word :: name :: ts)
      (.declaration word "var" name.payload value) (·.tightness < 1) := by
  intro stream next hpasses htight
  obtain ⟨middle, hhands, hback⟩ := Passes.cons_iff.mp hpasses
  obtain rfl := hhands.buffered_eq
  rw [bounded_succ_read]
  refine yields_simpleStatement.mpr ?_
  simp only [hword]
  exact ⟨middle, hhands, hvalue.declaration hname _ _ hback htight⟩

/-- The expression is read from its beginning, and hence also, if it starts with a type, from
the member of the type on. -/
theorem ReadsExpression.simple {token : Token} {tree : Expr Token}
    (htree : (bounded digits (depth + 1)).ReadsExpression enclosing (token :: ts) tree) :
    (bounded digits (depth + 9)).Reads enclosing .simpleStatement (token :: ts)
      (.expression token tree) (·.tightness < 1) := by
  intro stream next hpasses htight
  have hwhole := htree.2 _ _ hpasses htight
  obtain ⟨_, _, heq, hstart⟩ := htree.1.head
  obtain ⟨rfl, rfl⟩ := List.cons.inj heq
  obtain rfl := hpasses.buffered_eq
  rw [bounded_succ_read]
  refine yields_simpleStatement.mpr ?_
  split
  next hvar => simp [hvar, expressionStarts, operandStarts] at hstart
  next htype =>
    have hdeeper := hwhole.deeper (show depth + 1 ≤ depth + 1 + 7 by omega)
    unfold Yields at hdeeper
    rw [read_expression_of_typename htype] at hdeeper
    obtain ⟨left, s₃, hleft, hvalue⟩ := yields_bind.mp hdeeper
    obtain ⟨member, s₂, hmember, hleft⟩ := yields_bind.mp hleft
    obtain ⟨s₁, hhands, hmember⟩ := (yields_advance_bind (by simp [htype])).mp hmember
    have hdot := hmember
    rw [bounded_succ_read] at hdot
    obtain ⟨dot, hdot, _, hhands', _⟩ := yields_staticMember.mp hdot
    refine ⟨s₁, hhands, ?_⟩
    rw [if_neg (by simp [hhands'.buffered_eq, hdot])]
    exact ⟨member, s₂, hmember.deeper (by omega), left, s₃, hleft.deeper (by omega), tree,
      hvalue, rfl⟩
  next => exact ⟨tree, hwhole.deeper (by omega), rfl⟩

/-! ## One production after the other -/

namespace CoversStmt

theorem block {trees : List (Stmt Token)} {opening closing : Token}
    (hopening : opening.kind = .symbol .braceOpen)
    (htrees : (bounded digits depth).CoversStmt enclosing ts (.sequence trees))
    (hclosing : closing.kind = .symbol .braceClose) :
    (bounded digits (depth + 1)).CoversStmt enclosing (opening :: ts ++ [closing])
      (.block (.block opening trees)) := by
  intro stream next hpasses _
  obtain ⟨middle, hhands, hback⟩ := Passes.cons_iff.mp hpasses
  rw [bounded_succ_read]
  refine yields_block.mpr ⟨opening, hopening, middle, hhands, trees, ?_, rfl⟩
  refine Complete.manyUntil (·.kind ≠ .keyword .else) (by simp) ?_ ?_ ?_ _ _
    ⟨ts, closing, rfl, hclosing, htrees⟩ _ _ hback trivial
  · exact fun us tree ⟨_, hread⟩ stream next hus hfollow => hread _ _ hus hfollow
  · intro us tree ⟨hderives, _⟩
    obtain ⟨token, rest, rfl, hstart⟩ := hderives.head_statement
    refine ⟨token, rest, rfl, ?_, ?_⟩ <;> intro hkind <;>
      simp [hkind, statementStarts, expressionStarts, operandStarts] at hstart
  · intro token hkind
    simp [hkind]

/-- A condition in parentheses and the block after it. -/
theorem header {opening closing : Token} {condition : Expr Token} {body : Stmt Token}
    (hopening : opening.kind = .symbol .parenOpen)
    (hcondition : (bounded digits depth).ReadsExpression enclosing ts condition)
    (hclosing : closing.kind = .symbol .parenClose)
    (hbody : (bounded digits (depth + 1)).CoversStmt enclosing us (.block body))
    (hpasses : stream.Passes (opening :: ts ++ closing :: us) next) :
    ∃ middle,
      Yields ((bounded digits (depth + 1)).read enclosing .parenthesized) stream condition
        middle ∧
      Yields ((bounded digits (depth + 1)).read enclosing .block) middle body next := by
  rw [List.append_cons] at hpasses
  obtain ⟨middle, hfront, hus⟩ := Passes.append_iff.mp hpasses
  exact ⟨middle, hcondition.parenthesized hopening hclosing _ _ hfront trivial,
    hbody _ _ hus trivial⟩

theorem onlyIf {word opening closing : Token} {condition : Expr Token} {body : Stmt Token}
    (hopening : opening.kind = .symbol .parenOpen)
    (hcondition : (bounded digits depth).ReadsExpression enclosing ts condition)
    (hclosing : closing.kind = .symbol .parenClose)
    (hbody : (bounded digits (depth + 1)).CoversStmt enclosing us (.block body)) :
    (bounded digits (depth + 2)).CoversStmt enclosing (word :: opening :: ts ++ closing :: us)
      (.choice (.ifElse word condition body none)) := by
  intro _ _ heq stream next hpasses hfollow
  obtain ⟨rfl, rfl⟩ := List.cons.inj heq
  obtain ⟨middle, hcondition, hbody⟩ := header hopening hcondition hclosing hbody hpasses
  rw [bounded_succ_read]
  exact yields_ifStatement.mpr ⟨condition, middle, hcondition, body, next, hbody,
    .inl ⟨hfollow, rfl, rfl⟩⟩

theorem elseBlock {word opening closing elseWord : Token} {condition : Expr Token}
    {body other : Stmt Token} (hopening : opening.kind = .symbol .parenOpen)
    (hcondition : (bounded digits depth).ReadsExpression enclosing ts condition)
    (hclosing : closing.kind = .symbol .parenClose)
    (hbody : (bounded digits (depth + 1)).CoversStmt enclosing us (.block body))
    (helse : elseWord.kind = .keyword .else)
    (hderives : DerivesStmt enclosing (.block other) vs)
    (hother : (bounded digits (depth + 1)).CoversStmt enclosing vs (.block other)) :
    (bounded digits (depth + 2)).CoversStmt enclosing
      (word :: opening :: ts ++ closing :: us ++ elseWord :: vs)
      (.choice (.ifElse word condition body (some other))) := by
  intro _ _ heq stream next hpasses _
  obtain ⟨rfl, rfl⟩ := List.cons.inj heq
  obtain ⟨s₂, hfront, s₃, hhands, hvs⟩ := Passes.append_cons_iff.mp hpasses
  obtain ⟨middle, hcondition, hbody⟩ := header hopening hcondition hclosing hbody hfront
  have hshown : s₃.buffered.kind ≠ .keyword .if := by
    obtain ⟨token, rest, rfl, hbrace⟩ := hderives.head_block
    simp [hvs.buffered_eq, hbrace]
  rw [bounded_succ_read]
  exact yields_ifStatement.mpr ⟨condition, middle, hcondition, body, s₂, hbody,
    .inr ⟨elseWord, helse, s₃, hhands, .inl ⟨hshown, other, hother _ _ hvs trivial, rfl⟩⟩⟩

theorem elseIf {word opening closing elseWord : Token} {condition : Expr Token}
    {body other : Stmt Token} (hopening : opening.kind = .symbol .parenOpen)
    (hcondition : (bounded digits depth).ReadsExpression enclosing ts condition)
    (hclosing : closing.kind = .symbol .parenClose)
    (hbody : (bounded digits (depth + 1)).CoversStmt enclosing us (.block body))
    (helse : elseWord.kind = .keyword .else)
    (hderives : DerivesStmt enclosing (.choice other) vs)
    (hother : (bounded digits (depth + 1)).CoversStmt enclosing vs (.choice other)) :
    (bounded digits (depth + 2)).CoversStmt enclosing
      (word :: opening :: ts ++ closing :: us ++ elseWord :: vs)
      (.choice (.ifElse word condition body (some other))) := by
  intro _ _ heq stream next hpasses hfollow
  obtain ⟨rfl, rfl⟩ := List.cons.inj heq
  obtain ⟨s₂, hfront, s₃, hhands, hvs⟩ := Passes.append_cons_iff.mp hpasses
  obtain ⟨middle, hcondition, hbody⟩ := header hopening hcondition hclosing hbody hfront
  obtain ⟨ifWord, rest, rfl, hif⟩ := hderives.head_choice
  obtain ⟨s₄, hhands', hrest⟩ := Passes.cons_iff.mp hvs
  have hother := hother ifWord rest rfl _ _ hrest hfollow
  rw [← hhands'.buffered_eq] at hother
  rw [bounded_succ_read]
  exact yields_ifStatement.mpr ⟨condition, middle, hcondition, body, s₂, hbody,
    .inr ⟨elseWord, helse, s₃, hhands, .inr ⟨ifWord, hif, s₄, hhands', other, hother, rfl⟩⟩⟩

theorem ofBlock {tree : Stmt Token} (hderives : DerivesStmt enclosing (.block tree) ts)
    (htree : (bounded digits depth).CoversStmt enclosing ts (.block tree)) :
    (bounded digits (depth + 1)).CoversStmt enclosing ts (.statement tree) := by
  intro stream next hpasses _
  obtain ⟨token, rest, rfl, hkind⟩ := hderives.head_block
  rw [bounded_succ_read]
  refine yields_statement.mpr ?_
  simp only [hpasses.buffered_eq, hkind]
  exact htree _ _ hpasses trivial

theorem ofChoice {tree : Stmt Token} (hderives : DerivesStmt enclosing (.choice tree) ts)
    (htree : (bounded digits depth).CoversStmt enclosing ts (.choice tree)) :
    (bounded digits (depth + 1)).CoversStmt enclosing ts (.statement tree) := by
  intro stream next hpasses hfollow
  obtain ⟨token, rest, rfl, hkind⟩ := hderives.head_choice
  obtain ⟨middle, hhands, hrest⟩ := Passes.cons_iff.mp hpasses
  obtain rfl := hhands.buffered_eq
  rw [bounded_succ_read]
  refine yields_statement.mpr ?_
  simp only [hkind]
  exact ⟨middle, hhands, htree _ _ rfl _ _ hrest hfollow⟩

theorem whileLoop {word opening closing : Token} {condition : Expr Token} {body : Stmt Token}
    (hword : word.kind = .keyword .while) (hopening : opening.kind = .symbol .parenOpen)
    (hcondition : (bounded digits depth).ReadsExpression enclosing ts condition)
    (hclosing : closing.kind = .symbol .parenClose)
    (hbody : (bounded digits (depth + 1)).CoversStmt enclosing us (.block body)) :
    (bounded digits (depth + 2)).CoversStmt enclosing (word :: opening :: ts ++ closing :: us)
      (.statement (.whileLoop word condition body)) := by
  intro stream next hpasses _
  obtain ⟨s₁, hhands, hback⟩ := Passes.cons_iff.mp hpasses
  obtain ⟨middle, hcondition, hbody⟩ := header hopening hcondition hclosing hbody hback
  obtain rfl := hhands.buffered_eq
  rw [bounded_succ_read]
  refine yields_statement.mpr ?_
  simp only [hword]
  exact ⟨s₁, hhands, condition, middle, hcondition, body, hbody, rfl⟩

theorem forLoop {word opening semicolon semicolon' closing : Token} {first : Option (Stmt Token)}
    {condition step : Option (Expr Token)} {body : Stmt Token} (hword : word.kind = .keyword .for)
    (hopening : opening.kind = .symbol .parenOpen)
    (hfirst : Optionally ((bounded digits depth).ReadsSimple enclosing) ts first)
    (hsemicolon : semicolon.kind = .symbol .semicolon)
    (hcondition : Optionally ((bounded digits depth).ReadsExpression enclosing) us condition)
    (hsemicolon' : semicolon'.kind = .symbol .semicolon)
    (hstep : Optionally ((bounded digits depth).ReadsExpression enclosing) vs step)
    (hclosing : closing.kind = .symbol .parenClose)
    (hbody : (bounded digits depth).CoversStmt enclosing ws (.block body)) :
    (bounded digits (depth + 2)).CoversStmt enclosing
      (word :: opening :: ts ++ semicolon :: us ++ semicolon' :: vs ++ closing :: ws)
      (.statement (.forLoop word first condition step body)) := by
  intro stream next hpasses _
  obtain ⟨s₆, hfront, s₇, hhands₄, hws⟩ := Passes.append_cons_iff.mp hpasses
  obtain ⟨s₄, hfront, s₅, hhands₃, hvs⟩ := Passes.append_cons_iff.mp hfront
  obtain ⟨s₂, hfront, s₃, hhands₂, hus⟩ := Passes.append_cons_iff.mp hfront
  obtain ⟨s₀, hhands₀, hback⟩ := Passes.cons_iff.mp hfront
  obtain ⟨s₁, hhands₁, hts⟩ := Passes.cons_iff.mp hback
  have hclosed := hhands₄.buffered_eq ▸ hclosing
  have hended := hhands₃.buffered_eq ▸ hsemicolon'
  have hended' := hhands₂.buffered_eq ▸ hsemicolon
  have hcondition := yields_expressionUnless_of hcondition (by decide) hus hended
    (hhands₃.tightness_lt_of_mark hsemicolon' (by decide))
  have hstep := yields_expressionUnless_of hstep (by decide) hvs hclosed
    (hhands₄.tightness_lt_of_mark hclosing (by decide))
  obtain rfl := hhands₀.buffered_eq
  rw [bounded_succ_read]
  refine yields_statement.mpr ?_
  simp only [hword]
  refine ⟨s₀, hhands₀, ?_⟩
  rw [bounded_succ_read]
  refine yields_forStatement.mpr ⟨opening, hopening, s₁, hhands₁, first, s₂, ?_, semicolon,
    hsemicolon, s₃, hhands₂, condition, s₄, hcondition, semicolon', hsemicolon', s₅, hhands₃,
    step, s₆, hstep, closing, hclosing, s₇, hhands₄, body, hbody _ _ hws trivial, rfl⟩
  cases hfirst with
  | absent =>
      obtain rfl := Passes.nil_iff.mp hts
      rw [if_pos hended']
      exact ⟨rfl, rfl⟩
  | @present _ tree htree =>
      obtain ⟨token, rest, rfl, hstart⟩ := htree.1.head
      rw [if_neg]
      · exact ⟨tree, htree.2 _ _ hts (hhands₂.tightness_lt_of_mark hsemicolon (by decide)), rfl⟩
      · rw [hts.buffered_eq]
        intro hkind
        simp [hkind, expressionStarts, operandStarts] at hstart

theorem returnValue {word semicolon : Token} {value : Option (Expr Token)}
    (hword : word.kind = .keyword .return)
    (hvalue : Optionally ((bounded digits depth).ReadsExpression enclosing) ts value)
    (hsemicolon : semicolon.kind = .symbol .semicolon) :
    (bounded digits (depth + 1)).CoversStmt enclosing (word :: ts ++ [semicolon])
      (.statement (.returnValue word value)) := by
  intro stream next hpasses _
  obtain ⟨middle, hhands, hback⟩ := Passes.cons_iff.mp hpasses
  obtain ⟨last, hts, hrest⟩ := Passes.append_iff.mp hback
  have hhands' := Passes.singleton_iff.mp hrest
  have hended := hhands'.buffered_eq ▸ hsemicolon
  obtain rfl := hhands.buffered_eq
  rw [bounded_succ_read]
  refine yields_statement.mpr ?_
  simp only [hword]
  refine ⟨middle, hhands, value, last, ?_, ⟨semicolon, hsemicolon, hhands'⟩, rfl⟩
  exact yields_expressionUnless_of hvalue (by decide) hts hended
    (hhands'.tightness_lt_of_mark hsemicolon (by decide))

/-- A loop is left, or goes on with its next round, by a word alone. -/
theorem jump {word semicolon : Token} {tree : Stmt Token}
    (hword : word.kind = .keyword .break ∧ tree = .breakLoop word ∨
      word.kind = .keyword .continue ∧ tree = .continueLoop word)
    (hsemicolon : semicolon.kind = .symbol .semicolon) :
    (bounded digits (depth + 1)).CoversStmt enclosing [word, semicolon] (.statement tree) := by
  intro stream next hpasses _
  obtain ⟨middle, hhands, hback⟩ := Passes.cons_iff.mp hpasses
  have hhands' := Passes.singleton_iff.mp hback
  obtain rfl := hhands.buffered_eq
  rw [bounded_succ_read]
  refine yields_statement.mpr ?_
  obtain ⟨hkind, rfl⟩ | ⟨hkind, rfl⟩ := hword
  all_goals
    simp only [hkind]
    exact ⟨middle, hhands, ⟨semicolon, hsemicolon, hhands'⟩, trivial⟩

theorem ofSimple {tree : Stmt Token} {semicolon : Token}
    (htree : (bounded digits depth).ReadsSimple enclosing ts tree)
    (hsemicolon : semicolon.kind = .symbol .semicolon) :
    (bounded digits (depth + 1)).CoversStmt enclosing (ts ++ [semicolon])
      (.statement tree) := by
  intro stream next hpasses _
  obtain ⟨last, hts, hrest⟩ := Passes.append_iff.mp hpasses
  have hhands := Passes.singleton_iff.mp hrest
  have hread := htree.2 _ _ hts
    (hhands.tightness_lt_of_mark hsemicolon (by decide))
  obtain ⟨token, rest, rfl, hstart⟩ := htree.1.head
  obtain rfl := hts.buffered_eq
  rw [bounded_succ_read]
  refine yields_statement.mpr ?_
  split
  case h_8 => exact ⟨tree, last, hread, ⟨semicolon, hsemicolon, hhands⟩, rfl⟩
  all_goals
    rename_i hkind
    simp [hkind, expressionStarts, operandStarts] at hstart

end CoversStmt

/-! ## Every phrase -/

theorem readsExpression_of_fits {tree : Expr Token} (hderives : IsExpression enclosing ts tree)
    (hfits : ∀ token ∈ ts, token.Fits digits) :
    ∀ᶠ depth in atTop, (bounded digits depth).ReadsExpression enclosing ts tree := by
  filter_upwards [Derives.eventually_reads hderives hfits] with depth hread
  exact ⟨hderives, hread⟩

/-- A part that may be missing is read if the part is. -/
theorem optionally_of_fits {α : Type} {item : List Token → α → Prop}
    {read : Nat → List Token → α → Prop} {value : Option α}
    (hread : ∀ ts value, item ts value → (∀ token ∈ ts, token.Fits digits) →
      ∀ᶠ depth in atTop, read depth ts value)
    (hvalue : Optionally item ts value) (hfits : ∀ token ∈ ts, token.Fits digits) :
    ∀ᶠ depth in atTop, Optionally (read depth) ts value := by
  cases hvalue with
  | absent => exact .of_forall fun _ => .absent
  | present hitem =>
      filter_upwards [hread _ _ hitem hfits] with depth hpresent
      exact .present hpresent

theorem readsFirstValue_of_fits {value : Option (Expr Token)}
    (hvalue : IsFirstValue enclosing ts value) (hfits : ∀ token ∈ ts, token.Fits digits) :
    ∀ᶠ depth in atTop, (bounded digits depth).ReadsFirstValue enclosing ts value := by
  cases hvalue with
  | absent => exact .of_forall fun _ => readsFirstValue_absent
  | present hequals hderives =>
      filter_upwards [readsExpression_of_fits hderives (List.forall_mem_cons.mp hfits).2]
        with depth hread
      exact hread.firstValue hequals

theorem readsSimple_of_fits {tree : Stmt Token} (hsimple : IsSimple enclosing ts tree)
    (hfits : ∀ token ∈ ts, token.Fits digits) :
    ∀ᶠ depth in atTop, (bounded digits depth).ReadsSimple enclosing ts tree := by
  suffices hread : ∀ᶠ depth in atTop,
      (bounded digits depth).Reads enclosing .simpleStatement ts tree (·.tightness < 1) by
    filter_upwards [hread] with depth hread
    exact ⟨hsimple, hread⟩
  cases hsimple with
  | typed htype hname hvalue =>
      simp only [List.forall_mem_cons] at hfits
      refine eventually_of_further 2 ?_
      filter_upwards [readsFirstValue_of_fits hvalue hfits.2.2] with depth hread
      exact reads_typed htype hname hread
  | untyped hword hname hvalue =>
      simp only [List.forall_mem_cons] at hfits
      refine eventually_of_further 2 ?_
      filter_upwards [readsFirstValue_of_fits hvalue hfits.2.2] with depth hread
      exact reads_untyped hword hname hread
  | expression hderives =>
      refine eventually_of_further 9 ?_
      filter_upwards [eventually_further (readsExpression_of_fits hderives hfits) 1]
        with depth hread
      exact hread.simple

/-- Every phrase is read at every sufficient depth. -/
theorem coversStmt_of_derives {phrase : StmtPhrase} (hderives : DerivesStmt enclosing phrase ts)
    (hfits : ∀ token ∈ ts, token.Fits digits) :
    ∀ᶠ depth in atTop, (bounded digits depth).CoversStmt enclosing ts phrase := by
  induction hderives
  any_goals
    simp only [List.cons_append, List.append_assoc, List.forall_mem_append, List.forall_mem_cons]
      at hfits
  case block hopening _ hclosing ih =>
    refine eventually_of_further 1 ?_
    filter_upwards [ih hfits.2.1] with depth htrees
    exact .block hopening htrees hclosing
  case nil => exact .of_forall fun _ => .nil
  case cons hfirst _ ihfirst ihrest =>
    filter_upwards [ihfirst hfits.1, ihrest hfits.2] with depth hread hrest
    exact .cons ⟨hfirst, hread⟩ hrest
  case onlyIf hopening hcondition hclosing _ ih =>
    refine eventually_of_further 2 ?_
    filter_upwards [readsExpression_of_fits hcondition hfits.2.2.1,
      eventually_further (ih hfits.2.2.2.2) 1] with depth hcondition hbody
    exact .onlyIf hopening hcondition hclosing hbody
  case elseBlock hopening hcondition hclosing _ helse hother ih ihother =>
    refine eventually_of_further 2 ?_
    filter_upwards [readsExpression_of_fits hcondition hfits.2.2.1,
      eventually_further (ih hfits.2.2.2.2.1) 1, eventually_further (ihother hfits.2.2.2.2.2.2) 1]
      with depth hcondition hbody hread
    exact .elseBlock hopening hcondition hclosing hbody helse hother hread
  case elseIf hopening hcondition hclosing _ helse hother ih ihother =>
    refine eventually_of_further 2 ?_
    filter_upwards [readsExpression_of_fits hcondition hfits.2.2.1,
      eventually_further (ih hfits.2.2.2.2.1) 1, eventually_further (ihother hfits.2.2.2.2.2.2) 1]
      with depth hcondition hbody hread
    exact .elseIf hopening hcondition hclosing hbody helse hother hread
  case ofBlock hblock ih =>
    refine eventually_of_further 1 ?_
    filter_upwards [ih hfits] with depth hread
    exact .ofBlock hblock hread
  case ofChoice hchoice ih =>
    refine eventually_of_further 1 ?_
    filter_upwards [ih hfits] with depth hread
    exact .ofChoice hchoice hread
  case whileLoop hword hopening hcondition hclosing _ ih =>
    refine eventually_of_further 2 ?_
    filter_upwards [readsExpression_of_fits hcondition hfits.2.2.1,
      eventually_further (ih hfits.2.2.2.2) 1] with depth hcondition hbody
    exact .whileLoop hword hopening hcondition hclosing hbody
  case forLoop hword hopening hfirst hsemicolon hcondition hsemicolon' hstep hclosing _ ih =>
    obtain ⟨_, _, hfirstFits, _, hconditionFits, _, hstepFits, _, hbodyFits⟩ := hfits
    refine eventually_of_further 2 ?_
    filter_upwards [optionally_of_fits (fun _ _ => readsSimple_of_fits) hfirst hfirstFits,
      optionally_of_fits (fun _ _ => readsExpression_of_fits) hcondition hconditionFits,
      optionally_of_fits (fun _ _ => readsExpression_of_fits) hstep hstepFits, ih hbodyFits]
      with depth hfirst hcondition hstep hbody
    simpa using CoversStmt.forLoop hword hopening hfirst hsemicolon hcondition hsemicolon' hstep
      hclosing hbody
  case returnValue hword hvalue hsemicolon =>
    refine eventually_of_further 1 ?_
    filter_upwards [optionally_of_fits (fun _ _ => readsExpression_of_fits) hvalue hfits.2.1]
      with depth hvalue
    exact .returnValue hword hvalue hsemicolon
  case breakLoop hword hsemicolon =>
    exact eventually_of_further 1 (.of_forall fun _ => .jump (.inl ⟨hword, rfl⟩) hsemicolon)
  case continueLoop hword hsemicolon =>
    exact eventually_of_further 1 (.of_forall fun _ => .jump (.inr ⟨hword, rfl⟩) hsemicolon)
  case ofSimple hsimple hsemicolon =>
    refine eventually_of_further 1 ?_
    filter_upwards [readsSimple_of_fits hsimple hfits.1] with depth hread
    exact .ofSimple hread hsemicolon

end Level

end ClassLang
