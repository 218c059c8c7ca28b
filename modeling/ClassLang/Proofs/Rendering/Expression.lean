import ClassLang.Proofs.Rendering.List
import ClassLang.Proofs.Syntax.Statement
import ClassLang.Proofs.Tree.Shape

/-! # Writing expressions

An expression is written with parentheses only around operands that bind more
loosely than their place asks for. What is written derives a tree of the same
shape in the grammar of expressions.
-/

namespace ClassLang

open Scan Syntax

/-- Parentheses around lexemes that need them. -/
def wrapped (needed : Bool) (lexemes : List Lexeme) : List Lexeme :=
  if needed then .ofSymbol .parenOpen :: lexemes ++ [.ofSymbol .parenClose] else lexemes

namespace Expr

variable {ι : Type}

/-- How tightly an expression holds together: 0 for assignments, 1 for choices, 2 to 7 for
binary operators of precedence 1 to 6, 8 for operators before an operand, 9 for operators after
one, 10 for members of objects and 11 for everything else. -/
def level : Expr ι → Nat
  | .assign .. | .set .. | .setStatic .. => 0
  | .operator _ .conditional _ => 1
  | .operator _ (.symbol symbol) [_] => if symbol ∈ Symbol.leading then 8 else 9
  | .operator _ (.symbol symbol) _ =>
      match symbol.precedence? with
      | some precedence => precedence + 1
      | none => 0
  | .get .. | .call .. => 10
  | _ => 11

variable (write : Decimal.Binary64 → String)

mutual

/-- The lexemes of an expression, where `write` spells floating point values. -/
def lexemes : Expr ι → List Lexeme
  | .this _ => [.ofKeyword .this]
  | .null _ => [.ofKeyword .null]
  | .bool _ value => [.ofKeyword (if value then .true else .false)]
  | .int _ value => [.ofInt value]
  | .float _ value => [.ofFloat (write value)]
  | .string _ value => [.ofString value]
  | .name _ n => [.ofName n]
  | .operator _ .conditional [condition, holds, fails] =>
      wrapped (condition.level < 2) condition.lexemes ++ .ofSymbol .question :: holds.lexemes ++
        .ofSymbol .colon :: wrapped (fails.level < 1) fails.lexemes
  | .operator _ (.symbol symbol) [operand] =>
      if symbol ∈ Symbol.leading then
        .ofSymbol symbol :: wrapped (operand.level < 8) operand.lexemes
      else wrapped (operand.level < 9) operand.lexemes ++ [.ofSymbol symbol]
  | .operator _ (.symbol symbol) [left, right] =>
      match symbol.precedence? with
      | some precedence =>
          wrapped (left.level < precedence + 1) left.lexemes ++
            .ofSymbol symbol :: wrapped (right.level < precedence + 2) right.lexemes
      | none => wrapped (left.level < 1) left.lexemes ++ .ofSymbol symbol :: right.lexemes
  | .operator .. => []
  | .assign _ n value => .ofName n :: .ofSymbol .assign :: value.lexemes
  | .get _ owner n => wrapped (owner.level < 10) owner.lexemes ++ [.ofSymbol .dot, .ofName n]
  | .set _ owner n value =>
      wrapped (owner.level < 10) owner.lexemes ++ .ofSymbol .dot :: .ofName n ::
        .ofSymbol .assign :: value.lexemes
  | .getStatic _ type n => [.ofTypename type, .ofSymbol .dot, .ofName n]
  | .setStatic _ type n value =>
      .ofTypename type :: .ofSymbol .dot :: .ofName n :: .ofSymbol .assign :: value.lexemes
  | .call _ owner n arguments =>
      wrapped (owner.level < 10) owner.lexemes ++ .ofSymbol .dot :: .ofName n ::
        inParentheses (lexemesOfAll arguments)
  | .callStatic _ type n arguments =>
      (type.elim [] fun type => [.ofTypename type, .ofSymbol .dot]) ++ .ofName n ::
        inParentheses (lexemesOfAll arguments)
  | .new _ type arguments =>
      .ofName "new" :: .ofTypename type :: inParentheses (lexemesOfAll arguments)

/-- The lexemes of each of some expressions. -/
def lexemesOfAll : List (Expr ι) → List (List Lexeme)
  | [] => []
  | expression :: rest => expression.lexemes :: lexemesOfAll rest

end

attribute [local simp] lexemes lexemesOfAll

/-- The expressions that can be written: names and types are spelled as such, numbers can be
written as literals, operators have their operands, and what is assigned to can be. -/
inductive WellFormed : Expr ι → Prop
  | this {tag} : WellFormed (.this tag)
  | null {tag} : WellFormed (.null tag)
  | bool {tag value} : WellFormed (.bool tag value)
  | int {tag value} : value.repr.toList.length ≤ Failure.integerDigits → WellFormed (.int tag value)
  | float {tag value} : IsFloat (write value) → .ofLiteral (write value).toList = value →
      WellFormed (.float tag value)
  | string {tag value} : WellFormed (.string tag value)
  | name {tag n} : IsName n → WellFormed (.name tag n)
  | choice {tag condition holds fails} : WellFormed condition → WellFormed holds →
      WellFormed fails → WellFormed (.operator tag .conditional [condition, holds, fails])
  | binary {tag symbol precedence left right} : symbol.precedence? = some precedence →
      WellFormed left → WellFormed right → WellFormed (.operator tag (.symbol symbol) [left, right])
  | leading {tag symbol operand} : symbol ∈ Symbol.leading → WellFormed operand →
      WellFormed (.operator tag (.symbol symbol) [operand])
  | trailing {tag symbol operand} : symbol ∈ Symbol.trailing → WellFormed operand →
      WellFormed (.operator tag (.symbol symbol) [operand])
  | compound {tag symbol target value} : symbol ∈ compoundAssignments → IsTarget target →
      WellFormed target → WellFormed value →
      WellFormed (.operator tag (.symbol symbol) [target, value])
  | assign {tag n value} : IsName n → WellFormed value → WellFormed (.assign tag n value)
  | get {tag owner n} : WellFormed owner → IsName n → WellFormed (.get tag owner n)
  | set {tag owner n value} : WellFormed owner → IsName n → WellFormed value →
      WellFormed (.set tag owner n value)
  | getStatic {tag type n} : IsTypename type → IsName n → WellFormed (.getStatic tag type n)
  | setStatic {tag type n value} : IsTypename type → IsName n → WellFormed value →
      WellFormed (.setStatic tag type n value)
  | call {tag owner n arguments} : WellFormed owner → IsName n →
      (∀ argument ∈ arguments, WellFormed argument) → WellFormed (.call tag owner n arguments)
  | callStatic {tag type n arguments} : IsTypename type → IsName n →
      (∀ argument ∈ arguments, WellFormed argument) →
      WellFormed (.callStatic tag (some type) n arguments)
  | new {tag type arguments} : IsTypename type → (∀ argument ∈ arguments, WellFormed argument) →
      WellFormed (.new tag type arguments)

variable {write}

theorem lexemesOfAll_eq_map (expressions : List (Expr ι)) :
    lexemesOfAll write expressions = expressions.map (·.lexemes write) := by
  induction expressions with
  | nil => rfl
  | cons expression rest ih => simp [ih]

end Expr

@[simp] theorem readable_wrapped {needed : Bool} {lexemes : List Lexeme} :
    Readable (wrapped needed lexemes) ↔ Readable lexemes := by
  cases needed <;> simp [wrapped]

namespace Expr

variable {ι : Type} {write : Decimal.Binary64 → String} {expression : Expr ι}

/-- Every lexeme of an expression can be read. -/
theorem WellFormed.readable (hwell : expression.WellFormed write) :
    Readable (expression.lexemes write) := by
  induction hwell with
  | this | null | bool | string => simp [lexemes]
  | int hdigits => simp [lexemes, readable_ofInt hdigits]
  | float hfloat => simp [lexemes, readable_ofFloat hfloat]
  | name hname => simp [lexemes, readable_ofName hname]
  | choice _ _ _ ih₁ ih₂ ih₃ => simp [lexemes, ih₁, ih₂, ih₃]
  | binary hprecedence _ _ ih₁ ih₂ => simp [lexemes, hprecedence, ih₁, ih₂]
  | leading hmem _ ih => simp [lexemes, hmem, ih]
  | @trailing _ symbol _ hmem _ ih =>
      have hnot : symbol ∉ Symbol.leading := by
        cases symbol <;> simp_all [Symbol.trailing, Symbol.leading]
      simp [lexemes, hnot, ih]
  | @compound _ symbol _ _ hmem _ _ _ ih₁ ih₂ =>
      have hnone : symbol.precedence? = none := by
        cases symbol <;> simp_all [compoundAssignments, Symbol.precedence?]
      simp [lexemes, hnone, ih₁, ih₂]
  | assign hname _ ih => simp [lexemes, readable_ofName hname, ih]
  | get _ hname ih => simp [lexemes, readable_ofName hname, ih]
  | set _ hname _ ih₁ ih₂ => simp [lexemes, readable_ofName hname, ih₁, ih₂]
  | getStatic htype hname => simp [lexemes, readable_ofTypename htype, readable_ofName hname]
  | setStatic htype hname _ ih =>
      simp [lexemes, readable_ofTypename htype, readable_ofName hname, ih]
  | call _ hname _ ih ihs =>
      simpa [lexemes, lexemesOfAll_eq_map, readable_ofName hname, ih] using ihs
  | callStatic htype hname _ ihs =>
      simpa [lexemes, lexemesOfAll_eq_map, readable_ofTypename htype, readable_ofName hname]
        using ihs
  | new htype _ ihs =>
      have hnew : IsName "new" := by decide
      simpa [lexemes, lexemesOfAll_eq_map, readable_ofTypename htype, readable_ofName hnew]
        using ihs

/-! ## The grammar of what is written -/

theorem level_le (expression : Expr ι) : expression.level ≤ 11 := by
  have hprecedence (symbol : Symbol) :
      (match symbol.precedence? with | some precedence => precedence + 1 | none => 0) ≤ 11 := by
    cases symbol <;> decide
  unfold level
  split
  case h_5 => split <;> decide
  case h_6 => exact hprecedence _
  all_goals decide

end Expr

namespace Syntax

/-- The phrase that an expression of a level is. -/
def Phrase.atLevel (level : Nat) (tree : Expr Token) : Phrase :=
  match level with
  | 0 => .assignment tree
  | 1 => .conditional tree
  | 8 => .unary tree
  | 9 => .suffixed tree
  | 10 => .member tree
  | 11 => .primary tree
  | level => .binary (level - 1) tree

variable {enclosing : Option String} {tree : Expr Token} {ts : List Token} {required level : Nat}

/-- An expression can stand wherever a looser one can. -/
theorem Derives.atLevel_of_le (hle : required ≤ level) (hlevel : level ≤ 11)
    (hderives : Derives enclosing (.atLevel level tree) ts) :
    Derives enclosing (.atLevel required tree) ts := by
  induction hle with
  | refl => exact hderives
  | @step level _ ih =>
      apply ih (by omega)
      match level with
      | 0 => exact .ofConditional hderives
      | 1 => exact .ofBinary hderives
      | 2 | 3 | 4 | 5 | 6 => exact .ofTighter hderives
      | 7 => exact .ofTighter (.ofUnary hderives)
      | 8 => exact .ofSuffixed hderives
      | 9 => exact .ofMember hderives
      | 10 => exact .ofPrimary hderives
      | _ + 11 => omega

/-- The levels of binary operators are those of their operands. -/
theorem Phrase.atLevel_binary {symbol : Symbol} {precedence : Nat}
    (hprecedence : symbol.precedence? = some precedence) :
    Phrase.atLevel (precedence + 1) tree = .binary precedence tree := by
  cases symbol <;> cases hprecedence <;> rfl

theorem Derives.binary_of_atLevel {symbol : Symbol} {precedence : Nat}
    (hprecedence : symbol.precedence? = some precedence)
    (hderives : Derives enclosing (.atLevel (precedence + 2) tree) ts) :
    Derives enclosing (.binary (precedence + 1) tree) ts := by
  cases symbol <;> cases hprecedence
  case star | slash | percent => exact .ofUnary hderives
  all_goals exact hderives

end Syntax

namespace Expr

variable {ι : Type} {write : Decimal.Binary64 → String} {expression : Expr ι}
  {enclosing : Option String}

theorem payload_of_data {token : Token} {text : String} (hdata : token.data = some text) :
    token.payload = text := by simp [Token.payload, hdata]

/-- The lexemes represent the expression as one of some level. -/
def RepresentsAt (enclosing : Option String) (level : Nat) (lexemes : List Lexeme)
    (expression : Expr ι) : Prop :=
  Represents (fun ts tree => Derives enclosing (.atLevel level tree) ts) same lexemes expression

variable (write enclosing) in
/-- What is written for the expression represents it, as one of its own level. -/
def Represented (expression : Expr ι) : Prop :=
  RepresentsAt enclosing expression.level (expression.lexemes write) expression

namespace Represented

variable {tag : ι} {symbol : Symbol} {n type : String} {value owner operand left right : Expr ι}
  {arguments : List (Expr ι)}

/-- In parentheses an expression stands anywhere, and without them where its level allows. -/
theorem wrapped {required : Nat} (hexpression : expression.Represented write enclosing)
    (hrequired : required ≤ 11) :
    RepresentsAt enclosing required
      (wrapped (expression.level < required) (expression.lexemes write)) expression := by
  intro tokens hshows
  by_cases hloose : expression.level < required
  · simp only [ClassLang.wrapped, hloose, decide_true, if_true] at hshows
    obtain ⟨opening, _, rfl, ⟨hopening, _⟩, hrest⟩ := shows_cons_iff.mp hshows
    obtain ⟨inner, _, rfl, hinner, hclosing⟩ := shows_append_iff.mp hrest
    obtain ⟨closing, rfl, hclosing, _⟩ := shows_singleton_iff.mp hclosing
    obtain ⟨tree, hderives, hsame⟩ := hexpression inner hinner
    have hloosest : Derives enclosing (.atLevel 0 tree) inner :=
      hderives.atLevel_of_le (Nat.zero_le _) expression.level_le
    have hprimary : Derives enclosing (.atLevel 11 tree) (opening :: inner ++ [closing]) :=
      .parenthesized hopening hloosest hclosing
    exact ⟨tree, hprimary.atLevel_of_le hrequired (Nat.le_refl _), hsame⟩
  · simp only [ClassLang.wrapped, hloose, decide_false] at hshows
    obtain ⟨tree, hderives, hsame⟩ := hexpression tokens hshows
    exact ⟨tree, hderives.atLevel_of_le (Nat.not_lt.mp hloose) expression.level_le, hsame⟩

theorem loosest (hexpression : expression.Represented write enclosing) :
    Represents (IsExpression enclosing) same (expression.lexemes write) expression := by
  intro tokens hshows
  obtain ⟨tree, hderives, hsame⟩ := hexpression tokens hshows
  exact ⟨tree, hderives.atLevel_of_le (Nat.zero_le _) expression.level_le, hsame⟩

theorem represents_arguments
    (harguments : ∀ argument ∈ arguments, argument.Represented write enclosing) :
    Represents (fun ts trees => Derives enclosing (.arguments trees) ts) sameAll
      (inParentheses (lexemesOfAll write arguments)) arguments := by
  intro tokens hshows
  rw [lexemesOfAll_eq_map] at hshows
  obtain ⟨trees, htrees, hsame⟩ := represents_inParentheses
    (fun argument hmem => (harguments argument hmem).loosest) tokens hshows
  exact ⟨trees, Derives.arguments_iff.mpr htrees, by rwa [sameAll_eq_sameMembers]⟩

/-! ### Operators -/

theorem choice {condition holds fails : Expr ι}
    (hcondition : condition.Represented write enclosing)
    (hholds : holds.Represented write enclosing) (hfails : fails.Represented write enclosing) :
    Represented write enclosing (.operator tag .conditional [condition, holds, fails]) := by
  intro tokens hshows
  rw [lexemes] at hshows
  obtain ⟨_, _, rfl, hfront, hback⟩ := shows_append_iff.mp hshows
  obtain ⟨ts, _, rfl, hts, hrest⟩ := shows_append_iff.mp hfront
  obtain ⟨question, us, rfl, ⟨hquestion, _⟩, hus⟩ := shows_cons_iff.mp hrest
  obtain ⟨colon, vs, rfl, ⟨hcolon, _⟩, hvs⟩ := shows_cons_iff.mp hback
  obtain ⟨first, hfirst, hsame₁⟩ := hcondition.wrapped (by decide) ts hts
  obtain ⟨second, hsecond, hsame₂⟩ := hholds.loosest us hus
  obtain ⟨third, hthird, hsame₃⟩ := hfails.wrapped (by decide) vs hvs
  exact ⟨_, .choice hfirst hquestion hsecond hcolon hthird,
    by simp [same, sameAll, hsame₁, hsame₂, hsame₃]⟩

theorem binary {precedence : Nat} (hprecedence : symbol.precedence? = some precedence)
    (hleft : left.Represented write enclosing) (hright : right.Represented write enclosing) :
    Represented write enclosing (.operator tag (.symbol symbol) [left, right]) := by
  intro tokens hshows
  have hle : precedence ≤ 6 := by cases symbol <;> cases hprecedence <;> decide
  have hlevel : (operator tag (.symbol symbol) [left, right]).level = precedence + 1 := by
    simp [level, hprecedence]
  simp only [lexemes, hprecedence] at hshows
  obtain ⟨ts, _, rfl, hts, hrest⟩ := shows_append_iff.mp hshows
  obtain ⟨token, us, rfl, ⟨hkind, _⟩, hus⟩ := shows_cons_iff.mp hrest
  obtain ⟨first, hfirst, hsame₁⟩ := hleft.wrapped (by omega) ts hts
  obtain ⟨second, hsecond, hsame₂⟩ := hright.wrapped (by omega) us hus
  rw [Phrase.atLevel_binary hprecedence] at hfirst
  have hjoin := Derives.join hfirst hkind (mem_binaryOperators_iff.mpr hprecedence)
    (.binary_of_atLevel hprecedence hsecond)
  rw [← Phrase.atLevel_binary hprecedence] at hjoin
  rw [hlevel]
  exact ⟨_, hjoin, by simp [same, sameAll, hsame₁, hsame₂]⟩

theorem leading (hmem : symbol ∈ Symbol.leading) (hoperand : operand.Represented write enclosing) :
    Represented write enclosing (.operator tag (.symbol symbol) [operand]) := by
  intro tokens hshows
  have hlevel : (operator tag (.symbol symbol) [operand]).level = 8 := by simp [level, hmem]
  simp only [lexemes, hmem, if_true] at hshows
  obtain ⟨token, ts, rfl, ⟨hkind, _⟩, hts⟩ := shows_cons_iff.mp hshows
  obtain ⟨tree, htree, hsame⟩ := hoperand.wrapped (by decide) ts hts
  rw [hlevel]
  exact ⟨_, .leading hkind hmem htree, by simp [same, sameAll, hsame]⟩

theorem trailing (hmem : symbol ∈ Symbol.trailing)
    (hoperand : operand.Represented write enclosing) :
    Represented write enclosing (.operator tag (.symbol symbol) [operand]) := by
  intro tokens hshows
  have hnot : symbol ∉ Symbol.leading := by
    cases symbol <;> simp_all [Symbol.trailing, Symbol.leading]
  have hlevel : (operator tag (.symbol symbol) [operand]).level = 9 := by simp [level, hnot]
  simp only [lexemes, hnot, if_false] at hshows
  obtain ⟨ts, _, rfl, hts, hrest⟩ := shows_append_iff.mp hshows
  obtain ⟨token, rfl, hkind, _⟩ := shows_singleton_iff.mp hrest
  obtain ⟨tree, htree, hsame⟩ := hoperand.wrapped (by decide) ts hts
  rw [hlevel]
  exact ⟨_, .trailing htree hkind hmem, by simp [same, sameAll, hsame]⟩

/-! ### Assignments -/

/-- A target keeps its sort. -/
theorem isTarget_of_same {tree : Expr Token} (htarget : IsTarget expression)
    (hsame : tree.same expression) : IsTarget tree := by
  cases htarget <;> cases tree <;> first | cases hsame | constructor

theorem compound (hmem : symbol ∈ compoundAssignments) (htarget : IsTarget left)
    (hleft : left.Represented write enclosing) (hright : right.Represented write enclosing) :
    Represented write enclosing (.operator tag (.symbol symbol) [left, right]) := by
  intro tokens hshows
  have hnone : symbol.precedence? = none := by
    cases symbol <;> simp_all [compoundAssignments, Symbol.precedence?]
  have hlevel : (operator tag (.symbol symbol) [left, right]).level = 0 := by simp [level, hnone]
  simp only [lexemes, hnone] at hshows
  obtain ⟨ts, _, rfl, hts, hrest⟩ := shows_append_iff.mp hshows
  obtain ⟨token, us, rfl, ⟨hkind, _⟩, hus⟩ := shows_cons_iff.mp hrest
  obtain ⟨first, hfirst, hsame₁⟩ := hleft.wrapped (by decide) ts hts
  obtain ⟨second, hsecond, hsame₂⟩ := hright.loosest us hus
  rw [hlevel]
  exact ⟨_, .assignCompound (isTarget_of_same htarget hsame₁) hfirst hkind hmem hsecond,
    by simp [same, sameAll, hsame₁, hsame₂]⟩

theorem assign (hvalue : value.Represented write enclosing) :
    Represented write enclosing (.assign tag n value) := by
  intro tokens hshows
  rw [lexemes] at hshows
  obtain ⟨name, _, rfl, ⟨hname, hdata⟩, hrest⟩ := shows_cons_iff.mp hshows
  obtain ⟨token, us, rfl, ⟨hkind, _⟩, hus⟩ := shows_cons_iff.mp hrest
  obtain ⟨tree, htree, hsame⟩ := hvalue.loosest us hus
  have hprimary : Derives enclosing (.atLevel 11 (.name name name.payload)) [name] := .name hname
  have htarget := hprimary.atLevel_of_le (by decide : 1 ≤ 11) (Nat.le_refl _)
  exact ⟨_, .assignName htarget hkind htree, by simp [same, payload_of_data hdata, hsame]⟩

theorem set (howner : owner.Represented write enclosing)
    (hvalue : value.Represented write enclosing) :
    Represented write enclosing (.set tag owner n value) := by
  intro tokens hshows
  rw [lexemes] at hshows
  obtain ⟨ts, _, rfl, hts, hrest⟩ := shows_append_iff.mp hshows
  obtain ⟨dot, _, rfl, ⟨hdot, _⟩, hrest⟩ := shows_cons_iff.mp hrest
  obtain ⟨name, _, rfl, ⟨hname, hdata⟩, hrest⟩ := shows_cons_iff.mp hrest
  obtain ⟨token, us, rfl, ⟨hkind, _⟩, hus⟩ := shows_cons_iff.mp hrest
  obtain ⟨first, hfirst, hsame₁⟩ := howner.wrapped (by decide) ts hts
  obtain ⟨second, hsecond, hsame₂⟩ := hvalue.loosest us hus
  have hmember : Derives enclosing (.atLevel 10 (.get dot first name.payload)) (ts ++ [dot, name]) :=
    .field hfirst hdot hname
  have htarget := hmember.atLevel_of_le (by decide : 1 ≤ 10) (by decide)
  have hassign := Derives.assignField htarget hkind hsecond
  rw [List.append_assoc] at hassign
  exact ⟨_, hassign, by simp [same, payload_of_data hdata, hsame₁, hsame₂]⟩

theorem setStatic (hvalue : value.Represented write enclosing) :
    Represented write enclosing (.setStatic tag type n value) := by
  intro tokens hshows
  rw [lexemes] at hshows
  obtain ⟨owner, _, rfl, ⟨howner, hdata₁⟩, hrest⟩ := shows_cons_iff.mp hshows
  obtain ⟨dot, _, rfl, ⟨hdot, _⟩, hrest⟩ := shows_cons_iff.mp hrest
  obtain ⟨name, _, rfl, ⟨hname, hdata₂⟩, hrest⟩ := shows_cons_iff.mp hrest
  obtain ⟨token, us, rfl, ⟨hkind, _⟩, hus⟩ := shows_cons_iff.mp hrest
  obtain ⟨tree, htree, hsame⟩ := hvalue.loosest us hus
  have hprimary : Derives enclosing (.atLevel 11 (.getStatic owner owner.payload name.payload))
      [owner, dot, name] := .staticField howner hdot hname
  have htarget := hprimary.atLevel_of_le (by decide : 1 ≤ 11) (Nat.le_refl _)
  exact ⟨_, .assignStatic htarget hkind htree,
    by simp [same, payload_of_data hdata₁, payload_of_data hdata₂, hsame]⟩

/-! ### Members and primary expressions -/

theorem get (howner : owner.Represented write enclosing) :
    Represented write enclosing (.get tag owner n) := by
  intro tokens hshows
  rw [lexemes] at hshows
  obtain ⟨ts, _, rfl, hts, hrest⟩ := shows_append_iff.mp hshows
  obtain ⟨dot, _, rfl, ⟨hdot, _⟩, hrest⟩ := shows_cons_iff.mp hrest
  obtain ⟨name, rfl, hname, hdata⟩ := shows_singleton_iff.mp hrest
  obtain ⟨tree, htree, hsame⟩ := howner.wrapped (by decide) ts hts
  exact ⟨_, .field htree hdot hname, by simp [same, payload_of_data hdata, hsame]⟩

theorem call (howner : owner.Represented write enclosing)
    (harguments : ∀ argument ∈ arguments, argument.Represented write enclosing) :
    Represented write enclosing (.call tag owner n arguments) := by
  intro tokens hshows
  rw [lexemes] at hshows
  obtain ⟨ts, _, rfl, hts, hrest⟩ := shows_append_iff.mp hshows
  obtain ⟨dot, _, rfl, ⟨hdot, _⟩, hrest⟩ := shows_cons_iff.mp hrest
  obtain ⟨name, us, rfl, ⟨hname, hdata⟩, hus⟩ := shows_cons_iff.mp hrest
  obtain ⟨tree, htree, hsame⟩ := howner.wrapped (by decide) ts hts
  obtain ⟨trees, htrees, hsames⟩ := represents_arguments harguments us hus
  exact ⟨_, .call htree hdot hname htrees, by simp [same, payload_of_data hdata, hsame, hsames]⟩

theorem getStatic : Represented write enclosing (.getStatic tag type n) := by
  intro tokens hshows
  rw [lexemes] at hshows
  obtain ⟨owner, _, rfl, ⟨howner, hdata₁⟩, hrest⟩ := shows_cons_iff.mp hshows
  obtain ⟨dot, _, rfl, ⟨hdot, _⟩, hrest⟩ := shows_cons_iff.mp hrest
  obtain ⟨name, rfl, hname, hdata₂⟩ := shows_singleton_iff.mp hrest
  exact ⟨_, .staticField howner hdot hname,
    by simp [same, payload_of_data hdata₁, payload_of_data hdata₂]⟩

theorem callStatic (harguments : ∀ argument ∈ arguments, argument.Represented write enclosing) :
    Represented write enclosing (.callStatic tag (some type) n arguments) := by
  intro tokens hshows
  rw [lexemes] at hshows
  obtain ⟨owner, _, rfl, ⟨howner, hdata₁⟩, hrest⟩ := shows_cons_iff.mp hshows
  obtain ⟨dot, _, rfl, ⟨hdot, _⟩, hrest⟩ := shows_cons_iff.mp hrest
  obtain ⟨name, us, rfl, ⟨hname, hdata₂⟩, hus⟩ := shows_cons_iff.mp hrest
  obtain ⟨trees, htrees, hsames⟩ := represents_arguments harguments us hus
  exact ⟨_, .staticCall howner hdot hname htrees,
    by simp [same, payload_of_data hdata₁, payload_of_data hdata₂, hsames]⟩

theorem new (harguments : ∀ argument ∈ arguments, argument.Represented write enclosing) :
    Represented write enclosing (.new tag type arguments) := by
  intro tokens hshows
  rw [lexemes] at hshows
  obtain ⟨word, _, rfl, ⟨hword, hnew⟩, hrest⟩ := shows_cons_iff.mp hshows
  obtain ⟨token, us, rfl, ⟨hkind, hdata⟩, hus⟩ := shows_cons_iff.mp hrest
  obtain ⟨trees, htrees, hsames⟩ := represents_arguments harguments us hus
  exact ⟨_, .new hword hnew hkind htrees, by simp [same, payload_of_data hdata, hsames]⟩

theorem this : Represented write enclosing (.this tag) := by
  intro tokens hshows
  obtain ⟨token, rfl, hkind, _⟩ := shows_singleton_iff.mp hshows
  exact ⟨.this token, .this hkind, rfl⟩

theorem null : Represented write enclosing (.null tag) := by
  intro tokens hshows
  obtain ⟨token, rfl, hkind, _⟩ := shows_singleton_iff.mp hshows
  exact ⟨.null token, .null hkind, rfl⟩

theorem bool {truth : Bool} : Represented write enclosing (.bool tag truth) := by
  intro tokens hshows
  obtain ⟨token, rfl, hkind, _⟩ := shows_singleton_iff.mp hshows
  cases truth with
  | true => exact ⟨.bool token true, .true hkind, rfl⟩
  | false => exact ⟨.bool token false, .false hkind, rfl⟩

theorem digitsValue_repr (number : Nat) : Decimal.digitsValue number.repr.toList = number := by
  have hdigits := Nat.ofDigitChars_ten_toDigits (n := number)
  simpa [Decimal.digitsValue, Nat.ofDigitChars_eq_foldl, Nat.mul_comm] using hdigits

theorem int {number : Nat} : Represented write enclosing (.int tag number) := by
  intro tokens hshows
  obtain ⟨token, rfl, hkind, hdata⟩ := shows_singleton_iff.mp hshows
  refine ⟨_, .int hkind, ?_⟩
  rw [payload_of_data hdata, digitsValue_repr]
  simp [same]

theorem float {number : Decimal.Binary64} (hnumber : .ofLiteral (write number).toList = number) :
    Represented write enclosing (.float tag number) := by
  intro tokens hshows
  obtain ⟨token, rfl, hkind, hdata⟩ := shows_singleton_iff.mp hshows
  refine ⟨_, .float hkind, ?_⟩
  rw [payload_of_data hdata, hnumber]
  simp [same]

theorem string {text : String} : Represented write enclosing (.string tag text) := by
  intro tokens hshows
  obtain ⟨token, rfl, hkind, hdata⟩ := shows_singleton_iff.mp hshows
  exact ⟨_, .string hkind, by simp [same, payload_of_data hdata]⟩

theorem name : Represented write enclosing (.name tag n) := by
  intro tokens hshows
  obtain ⟨token, rfl, hkind, hdata⟩ := shows_singleton_iff.mp hshows
  exact ⟨_, .name hkind, by simp [same, payload_of_data hdata]⟩

end Represented

/-- What is written for an expression is one in the grammar, of the same shape. -/
theorem WellFormed.represented (hwell : expression.WellFormed write) (enclosing : Option String) :
    expression.Represented write enclosing := by
  induction hwell with
  | this => exact .this
  | null => exact .null
  | bool => exact .bool
  | int => exact .int
  | float _ hvalue => exact .float hvalue
  | string => exact .string
  | name => exact .name
  | choice _ _ _ ih₁ ih₂ ih₃ => exact ih₁.choice ih₂ ih₃
  | binary hprecedence _ _ ih₁ ih₂ => exact .binary hprecedence ih₁ ih₂
  | leading hmem _ ih => exact .leading hmem ih
  | trailing hmem _ ih => exact .trailing hmem ih
  | compound hmem htarget _ _ ih₁ ih₂ => exact .compound hmem htarget ih₁ ih₂
  | assign _ _ ih => exact ih.assign
  | get _ _ ih => exact ih.get
  | set _ _ _ ih₁ ih₂ => exact ih₁.set ih₂
  | getStatic => exact .getStatic
  | setStatic _ _ _ ih => exact ih.setStatic
  | call _ _ _ ih ihs => exact ih.call ihs
  | callStatic _ _ _ ihs => exact .callStatic ihs
  | new _ _ ihs => exact .new ihs

end Expr

end ClassLang
