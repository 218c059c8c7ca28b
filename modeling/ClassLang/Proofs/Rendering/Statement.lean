import ClassLang.Proofs.Rendering.Expression

/-! # Writing statements

Statements are written as the grammar has them, with a semicolon after the
simple ones. What is written derives a tree of the same shape.
-/

namespace ClassLang

open Scan Syntax

namespace Stmt

variable {ι : Type} (write : Decimal.Binary64 → String)

/-- The lexemes of an expression that may be missing. -/
def lexemesOfValue (value : Option (Expr ι)) : List Lexeme := value.elim [] (·.lexemes write)

/-- The lexemes of a first value after an equals sign, where there is one. -/
def lexemesOfFirst (value : Option (Expr ι)) : List Lexeme :=
  value.elim [] fun value => .ofSymbol .assign :: value.lexemes write

/-- The lexemes of a declaration or an expression, without a semicolon. -/
def simpleLexemes : Stmt ι → List Lexeme
  | .declaration _ type name value =>
      (if type = "var" then .ofKeyword .var else .ofTypename type) :: .ofName name ::
        lexemesOfFirst write value
  | .expression _ value => value.lexemes write
  | _ => []

mutual

/-- The lexemes of a statement, where `write` spells floating point values. -/
def lexemes : Stmt ι → List Lexeme
  | .block _ statements =>
      .ofSymbol .braceOpen :: lexemesOfAll statements ++ [.ofSymbol .braceClose]
  | .ifElse _ condition body other =>
      .ofKeyword .if :: .ofSymbol .parenOpen :: condition.lexemes write ++
        .ofSymbol .parenClose :: body.lexemes ++ lexemesOfElse other
  | .forLoop _ first condition step body =>
      .ofKeyword .for :: .ofSymbol .parenOpen :: first.elim [] (simpleLexemes write) ++
        .ofSymbol .semicolon :: lexemesOfValue write condition ++
        .ofSymbol .semicolon :: lexemesOfValue write step ++ .ofSymbol .parenClose :: body.lexemes
  | .whileLoop _ condition body =>
      .ofKeyword .while :: .ofSymbol .parenOpen :: condition.lexemes write ++
        .ofSymbol .parenClose :: body.lexemes
  | .breakLoop _ => [.ofKeyword .break, .ofSymbol .semicolon]
  | .continueLoop _ => [.ofKeyword .continue, .ofSymbol .semicolon]
  | .returnValue _ value =>
      .ofKeyword .return :: lexemesOfValue write value ++ [.ofSymbol .semicolon]
  | .declaration tag type name value =>
      simpleLexemes write (.declaration tag type name value) ++ [.ofSymbol .semicolon]
  | .expression tag value => simpleLexemes write (.expression tag value) ++ [.ofSymbol .semicolon]

/-- The lexemes of statements one after the other. -/
def lexemesOfAll : List (Stmt ι) → List Lexeme
  | [] => []
  | statement :: rest => statement.lexemes ++ lexemesOfAll rest

/-- The lexemes of what is done otherwise, where there is such a statement. -/
def lexemesOfElse : Option (Stmt ι) → List Lexeme
  | none => []
  | some other => .ofKeyword .else :: other.lexemes

end

attribute [local simp] lexemes lexemesOfAll lexemesOfElse

/-- The statement is a block. -/
def isBlock : Stmt ι → Bool
  | .block .. => true
  | _ => false

/-- The statement is a block or begins with `if`. -/
def isElse : Stmt ι → Bool
  | .block .. | .ifElse .. => true
  | _ => false

/-- The declarations and expressions that can be written. -/
inductive SimpleWellFormed : Stmt ι → Prop
  | declaration {tag type name value} : type = "var" ∨ IsTypename type → IsName name →
      (∀ expression ∈ value, expression.WellFormed write) →
      SimpleWellFormed (.declaration tag type name value)
  | expression {tag value} : value.WellFormed write → SimpleWellFormed (.expression tag value)

/-- The statements that can be written: bodies are blocks, and what is done otherwise is a block
or another `if`. -/
inductive WellFormed : Stmt ι → Prop
  | block {tag statements} : (∀ statement ∈ statements, WellFormed statement) →
      WellFormed (.block tag statements)
  | onlyIf {tag condition body} : condition.WellFormed write → WellFormed body → body.isBlock →
      WellFormed (.ifElse tag condition body none)
  | ifElse {tag condition body other} : condition.WellFormed write → WellFormed body →
      body.isBlock → WellFormed other → other.isElse →
      WellFormed (.ifElse tag condition body (some other))
  | forLoop {tag first condition step body} :
      (∀ statement ∈ first, statement.SimpleWellFormed write) →
      (∀ expression ∈ condition, expression.WellFormed write) →
      (∀ expression ∈ step, expression.WellFormed write) → WellFormed body → body.isBlock →
      WellFormed (.forLoop tag first condition step body)
  | whileLoop {tag condition body} : condition.WellFormed write → WellFormed body → body.isBlock →
      WellFormed (.whileLoop tag condition body)
  | breakLoop {tag} : WellFormed (.breakLoop tag)
  | continueLoop {tag} : WellFormed (.continueLoop tag)
  | returnValue {tag value} : (∀ expression ∈ value, expression.WellFormed write) →
      WellFormed (.returnValue tag value)
  | simple {statement} : statement.SimpleWellFormed write → WellFormed statement

variable {write} {statement : Stmt ι} {value : Option (Expr ι)}

theorem lexemes_of_simple (hsimple : statement.SimpleWellFormed write) :
    statement.lexemes write = statement.simpleLexemes write ++ [.ofSymbol .semicolon] := by
  cases hsimple <;> rw [lexemes]

theorem lexemesOfAll_eq_flatMap (statements : List (Stmt ι)) :
    lexemesOfAll write statements = statements.flatMap (·.lexemes write) := by
  induction statements with
  | nil => rfl
  | cons statement rest ih => rw [lexemesOfAll, ih, List.flatMap_cons]

/-! ## Lexemes that can be read -/

theorem readable_value (hvalue : ∀ expression ∈ value, expression.WellFormed write) :
    Readable (lexemesOfValue write value) := by
  cases value with
  | none => exact readable_nil
  | some expression => exact (hvalue expression rfl).readable

theorem readable_first (hvalue : ∀ expression ∈ value, expression.WellFormed write) :
    Readable (lexemesOfFirst write value) := by
  cases value with
  | none => exact readable_nil
  | some expression => exact readable_cons.mpr ⟨readable_ofSymbol _, (hvalue expression rfl).readable⟩

theorem SimpleWellFormed.readable (hsimple : statement.SimpleWellFormed write) :
    Readable (statement.simpleLexemes write) := by
  cases hsimple with
  | declaration htype hname hvalue =>
      rw [simpleLexemes]
      refine readable_cons.mpr ⟨?_, readable_cons.mpr ⟨readable_ofName hname, readable_first hvalue⟩⟩
      split
      next => exact readable_ofKeyword _
      next hvar => exact readable_ofTypename (htype.resolve_left hvar)
  | expression hvalue => exact hvalue.readable

/-- Every lexeme of a statement can be read. -/
theorem WellFormed.readable (hwell : statement.WellFormed write) :
    Readable (statement.lexemes write) := by
  induction hwell with
  | @block _ statements _ ih =>
      have hall : Readable (lexemesOfAll write statements) := by
        intro lexeme hlexeme
        rw [lexemesOfAll_eq_flatMap] at hlexeme
        obtain ⟨statement, hmem, hlexeme⟩ := List.mem_flatMap.mp hlexeme
        exact ih statement hmem lexeme hlexeme
      simp [lexemes, hall]
  | onlyIf hcondition _ _ ih => simp [lexemes, lexemesOfElse, hcondition.readable, ih]
  | ifElse hcondition _ _ _ _ ih₁ ih₂ =>
      simp [lexemes, lexemesOfElse, hcondition.readable, ih₁, ih₂]
  | @forLoop _ first _ _ _ hfirst hcondition hstep _ _ ih =>
      have hbegin : Readable (first.elim [] (simpleLexemes write)) := by
        cases first with
        | none => exact readable_nil
        | some statement => exact (hfirst statement rfl).readable
      simp [lexemes, hbegin, readable_value hcondition, readable_value hstep, ih]
  | whileLoop hcondition _ _ ih => simp [lexemes, hcondition.readable, ih]
  | breakLoop | continueLoop => simp [lexemes]
  | returnValue hvalue => simp [lexemes, readable_value hvalue]
  | simple hsimple => simp [lexemes_of_simple hsimple, hsimple.readable]

/-! ## The grammar of what is written -/

variable {enclosing : Option String} {expression : Expr ι}

theorem represents_value (hvalue : ∀ expression ∈ value, expression.WellFormed write) :
    Represents (Optionally (IsExpression enclosing)) sameValue (lexemesOfValue write value)
      value := by
  intro tokens hshows
  cases value with
  | none =>
      obtain rfl := shows_nil_iff.mp hshows
      exact ⟨none, .absent, rfl⟩
  | some expression =>
      have hexpression := (hvalue expression rfl).represented enclosing
      obtain ⟨tree, htree, hsame⟩ := hexpression.loosest tokens hshows
      exact ⟨some tree, .present htree, hsame⟩

theorem represents_first (hvalue : ∀ expression ∈ value, expression.WellFormed write) :
    Represents (IsFirstValue enclosing) sameValue (lexemesOfFirst write value) value := by
  intro tokens hshows
  cases value with
  | none =>
      obtain rfl := shows_nil_iff.mp hshows
      exact ⟨none, .absent, rfl⟩
  | some expression =>
      obtain ⟨equals, ts, rfl, ⟨hequals, _⟩, hts⟩ := shows_cons_iff.mp hshows
      have hexpression := (hvalue expression rfl).represented enclosing
      obtain ⟨tree, htree, hsame⟩ := hexpression.loosest ts hts
      exact ⟨some tree, .present hequals htree, hsame⟩

/-- What is written for a declaration or an expression is one in the grammar. -/
theorem SimpleWellFormed.represented (hsimple : statement.SimpleWellFormed write)
    (enclosing : Option String) :
    Represents (IsSimple enclosing) same (statement.simpleLexemes write) statement := by
  intro tokens hshows
  cases hsimple with
  | @declaration _ type _ _ htype _ hvalue =>
      obtain ⟨first, _, rfl, ⟨hkind, hdata⟩, hrest⟩ := shows_cons_iff.mp hshows
      obtain ⟨name, ts, rfl, ⟨hname, hspelled⟩, hts⟩ := shows_cons_iff.mp hrest
      obtain ⟨tree, htree, hsame⟩ := represents_first hvalue ts hts
      by_cases hvar : type = "var"
      · rw [if_pos hvar] at hkind
        exact ⟨_, .untyped hkind hname htree,
          by simp [same, hvar, Expr.payload_of_data hspelled, hsame]⟩
      · rw [if_neg hvar] at hkind hdata
        exact ⟨_, .typed hkind hname htree,
          by simp [same, Expr.payload_of_data hdata, Expr.payload_of_data hspelled, hsame]⟩
  | expression hvalue =>
      obtain ⟨tree, htree, hsame⟩ := (hvalue.represented enclosing).loosest tokens hshows
      obtain ⟨token, ts, rfl, _⟩ := htree.head
      exact ⟨_, .expression htree, hsame⟩

/-- The phrase that a statement of the same sort is. -/
def phrase : Stmt ι → Stmt Token → StmtPhrase
  | .block .. => .block
  | .ifElse .. => .choice
  | _ => .statement

variable (write enclosing) in
/-- What is written for the statement represents it, as a phrase of its own sort. -/
def Represented (statement : Stmt ι) : Prop :=
  Represents (fun ts tree => DerivesStmt enclosing (statement.phrase tree) ts) same
    (statement.lexemes write) statement

namespace Represented

variable {tag : ι} {condition : Expr ι} {body other : Stmt ι}

/-- Blocks and choices are statements. -/
theorem asStatement (hstatement : statement.Represented write enclosing) :
    Represents (fun ts tree => DerivesStmt enclosing (.statement tree) ts) same
      (statement.lexemes write) statement := by
  intro tokens hshows
  obtain ⟨tree, htree, hsame⟩ := hstatement tokens hshows
  cases statement with
  | block => exact ⟨tree, .ofBlock htree, hsame⟩
  | ifElse => exact ⟨tree, .ofChoice htree, hsame⟩
  | _ => exact ⟨tree, htree, hsame⟩

theorem isBlock (hbody : body.Represented write enclosing) (hblock : body.isBlock) :
    Represents (IsBlock enclosing) same (body.lexemes write) body := by
  cases body with
  | block => exact hbody
  | _ => cases hblock

theorem block {statements : List (Stmt ι)}
    (hstatements : ∀ statement ∈ statements, statement.Represented write enclosing) :
    Represented write enclosing (.block tag statements) := by
  intro tokens hshows
  rw [lexemes, lexemesOfAll_eq_flatMap] at hshows
  obtain ⟨opening, _, rfl, ⟨hopening, _⟩, hrest⟩ := shows_cons_iff.mp hshows
  obtain ⟨ts, _, rfl, hts, hclosing⟩ := shows_append_iff.mp hrest
  obtain ⟨closing, rfl, hclosing, _⟩ := shows_singleton_iff.mp hclosing
  obtain ⟨trees, htrees, hsame⟩ :=
    represents_sequence (fun statement hmem => (hstatements statement hmem).asStatement) ts hts
  rw [← sameAll_eq_sameMembers] at hsame
  exact ⟨_, .block hopening (DerivesStmt.sequence_iff.mpr htrees) hclosing, hsame⟩

/-- A condition in parentheses and a block after the word of a statement. -/
theorem header {keyword : Keyword} {tokens : List Token}
    (hcondition : condition.WellFormed write) (hbody : body.Represented write enclosing)
    (hblock : body.isBlock)
    (hshows : Shows (.ofKeyword keyword :: .ofSymbol .parenOpen :: condition.lexemes write ++
      .ofSymbol .parenClose :: body.lexemes write) tokens) :
    ∃ word opening ts closing us test tree,
      tokens = word :: opening :: ts ++ closing :: us ∧ word.kind = .keyword keyword ∧
        opening.kind = .symbol .parenOpen ∧ IsExpression enclosing ts test ∧
        closing.kind = .symbol .parenClose ∧ IsBlock enclosing us tree ∧ test.same condition ∧
        tree.same body := by
  obtain ⟨front, _, rfl, hfront, hback⟩ := shows_append_iff.mp hshows
  obtain ⟨word, _, rfl, ⟨hword, _⟩, hrest⟩ := shows_cons_iff.mp hfront
  obtain ⟨opening, ts, rfl, ⟨hopening, _⟩, hts⟩ := shows_cons_iff.mp hrest
  obtain ⟨closing, us, rfl, ⟨hclosing, _⟩, hus⟩ := shows_cons_iff.mp hback
  obtain ⟨test, htest, hsame₁⟩ := (hcondition.represented enclosing).loosest ts hts
  obtain ⟨tree, htree, hsame₂⟩ := hbody.isBlock hblock us hus
  exact ⟨word, opening, ts, closing, us, test, tree, rfl, hword, hopening, htest, hclosing, htree,
    hsame₁, hsame₂⟩

theorem onlyIf (hcondition : condition.WellFormed write)
    (hbody : body.Represented write enclosing) (hblock : body.isBlock) :
    Represented write enclosing (.ifElse tag condition body none) := by
  intro tokens hshows
  rw [lexemes, lexemesOfElse, List.append_nil] at hshows
  obtain ⟨word, opening, ts, closing, us, test, tree, rfl, hword, hopening, htest, hclosing, htree,
    hsame₁, hsame₂⟩ := header hcondition hbody hblock hshows
  exact ⟨_, .onlyIf hword hopening htest hclosing htree,
    by simp [same, sameOption, hsame₁, hsame₂]⟩

theorem ifElse (hcondition : condition.WellFormed write)
    (hbody : body.Represented write enclosing) (hblock : body.isBlock)
    (hother : other.Represented write enclosing) (helse : other.isElse) :
    Represented write enclosing (.ifElse tag condition body (some other)) := by
  intro tokens hshows
  rw [lexemes, lexemesOfElse] at hshows
  obtain ⟨front, _, rfl, hfront, hback⟩ := shows_append_iff.mp hshows
  obtain ⟨word, opening, ts, closing, us, test, tree, rfl, hword, hopening, htest, hclosing, htree,
    hsame₁, hsame₂⟩ := header hcondition hbody hblock hfront
  obtain ⟨elseWord, vs, rfl, ⟨helseWord, _⟩, hvs⟩ := shows_cons_iff.mp hback
  obtain ⟨last, hlast, hsame₃⟩ := hother vs hvs
  cases other with
  | block =>
      exact ⟨_, .elseBlock hword hopening htest hclosing htree helseWord hlast,
        by simp [same, sameOption, hsame₁, hsame₂, hsame₃]⟩
  | ifElse =>
      exact ⟨_, .elseIf hword hopening htest hclosing htree helseWord hlast,
        by simp [same, sameOption, hsame₁, hsame₂, hsame₃]⟩
  | _ => cases helse

theorem whileLoop (hcondition : condition.WellFormed write)
    (hbody : body.Represented write enclosing) (hblock : body.isBlock) :
    Represented write enclosing (.whileLoop tag condition body) := by
  intro tokens hshows
  rw [lexemes] at hshows
  obtain ⟨word, opening, ts, closing, us, test, tree, rfl, hword, hopening, htest, hclosing, htree,
    hsame₁, hsame₂⟩ := header hcondition hbody hblock hshows
  exact ⟨_, .whileLoop hword hopening htest hclosing htree, by simp [same, hsame₁, hsame₂]⟩

theorem forLoop {first : Option (Stmt ι)} {condition step : Option (Expr ι)}
    (hfirst : ∀ statement ∈ first, statement.SimpleWellFormed write)
    (hcondition : ∀ expression ∈ condition, expression.WellFormed write)
    (hstep : ∀ expression ∈ step, expression.WellFormed write)
    (hbody : body.Represented write enclosing) (hblock : body.isBlock) :
    Represented write enclosing (.forLoop tag first condition step body) := by
  intro tokens hshows
  rw [lexemes] at hshows
  obtain ⟨_, _, rfl, hfront₁, hback₁⟩ := shows_append_iff.mp hshows
  obtain ⟨closing, ws, rfl, ⟨hclosing, _⟩, hws⟩ := shows_cons_iff.mp hback₁
  obtain ⟨_, _, rfl, hfront₂, hback₂⟩ := shows_append_iff.mp hfront₁
  obtain ⟨semicolon', vs, rfl, ⟨hsemicolon', _⟩, hvs⟩ := shows_cons_iff.mp hback₂
  obtain ⟨_, _, rfl, hfront₃, hback₃⟩ := shows_append_iff.mp hfront₂
  obtain ⟨semicolon, us, rfl, ⟨hsemicolon, _⟩, hus⟩ := shows_cons_iff.mp hback₃
  obtain ⟨word, _, rfl, ⟨hword, _⟩, hrest⟩ := shows_cons_iff.mp hfront₃
  obtain ⟨opening, ts, rfl, ⟨hopening, _⟩, hts⟩ := shows_cons_iff.mp hrest
  have hbegin : ∃ start, Optionally (IsSimple enclosing) ts start ∧ sameOption start first := by
    cases first with
    | none =>
        obtain rfl := shows_nil_iff.mp hts
        exact ⟨none, .absent, rfl⟩
    | some statement =>
        obtain ⟨tree, htree, hsame⟩ := (hfirst statement rfl).represented enclosing ts hts
        exact ⟨some tree, .present htree, hsame⟩
  obtain ⟨start, hstart, hsame₁⟩ := hbegin
  obtain ⟨test, htest, hsame₂⟩ := represents_value hcondition us hus
  obtain ⟨last, hlast, hsame₃⟩ := represents_value hstep vs hvs
  obtain ⟨tree, htree, hsame₄⟩ := hbody.isBlock hblock ws hws
  exact ⟨_, .forLoop hword hopening hstart hsemicolon htest hsemicolon' hlast hclosing htree,
    by simp [same, hsame₁, hsame₂, hsame₃, hsame₄]⟩

theorem returnValue (hvalue : ∀ expression ∈ value, expression.WellFormed write) :
    Represented write enclosing (.returnValue tag value) := by
  intro tokens hshows
  rw [lexemes] at hshows
  obtain ⟨word, _, rfl, ⟨hword, _⟩, hrest⟩ := shows_cons_iff.mp hshows
  obtain ⟨ts, _, rfl, hts, hsemicolon⟩ := shows_append_iff.mp hrest
  obtain ⟨semicolon, rfl, hsemicolon, _⟩ := shows_singleton_iff.mp hsemicolon
  obtain ⟨tree, htree, hsame⟩ := represents_value hvalue ts hts
  exact ⟨_, .returnValue hword htree hsemicolon, hsame⟩

theorem breakLoop : Represented write enclosing (.breakLoop tag) := by
  intro tokens hshows
  obtain ⟨word, _, rfl, ⟨hword, _⟩, hrest⟩ := shows_cons_iff.mp hshows
  obtain ⟨semicolon, rfl, hsemicolon, _⟩ := shows_singleton_iff.mp hrest
  exact ⟨_, .breakLoop hword hsemicolon, rfl⟩

theorem continueLoop : Represented write enclosing (.continueLoop tag) := by
  intro tokens hshows
  obtain ⟨word, _, rfl, ⟨hword, _⟩, hrest⟩ := shows_cons_iff.mp hshows
  obtain ⟨semicolon, rfl, hsemicolon, _⟩ := shows_singleton_iff.mp hrest
  exact ⟨_, .continueLoop hword hsemicolon, rfl⟩

theorem simple (hsimple : statement.SimpleWellFormed write) :
    Represented write enclosing statement := by
  intro tokens hshows
  rw [lexemes_of_simple hsimple] at hshows
  obtain ⟨ts, _, rfl, hts, hsemicolon⟩ := shows_append_iff.mp hshows
  obtain ⟨semicolon, rfl, hsemicolon, _⟩ := shows_singleton_iff.mp hsemicolon
  obtain ⟨tree, htree, hsame⟩ := hsimple.represented enclosing ts hts
  cases hsimple <;> exact ⟨tree, .ofSimple htree hsemicolon, hsame⟩

end Represented

/-- What is written for a statement is one in the grammar, of the same shape. -/
theorem WellFormed.represented (hwell : statement.WellFormed write) (enclosing : Option String) :
    statement.Represented write enclosing := by
  induction hwell with
  | block _ ih => exact .block ih
  | onlyIf hcondition _ hblock ih => exact .onlyIf hcondition ih hblock
  | ifElse hcondition _ hblock _ helse ih₁ ih₂ => exact .ifElse hcondition ih₁ hblock ih₂ helse
  | forLoop hfirst hcondition hstep _ hblock ih =>
      exact .forLoop hfirst hcondition hstep ih hblock
  | whileLoop hcondition _ hblock ih => exact .whileLoop hcondition ih hblock
  | breakLoop => exact .breakLoop
  | continueLoop => exact .continueLoop
  | returnValue hvalue => exact .returnValue hvalue
  | simple hsimple => exact .simple hsimple

end Stmt

end ClassLang
