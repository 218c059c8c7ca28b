import ClassLang.Tree.Expression
import ClassLang.Proofs.Syntax.List

/-! # The grammar of expressions

Which sequences of tokens are expressions, and of which trees. The grammar has
a level for every strength of binding; an expression of a level that binds
tighter is also one of every looser level. Nothing here says how to read.

A node is tagged with the token it starts at. An operator between or after
operands, a choice and an assignment take over the tag of the first operand;
members of objects are tagged with their point.
-/

namespace ClassLang.Syntax

/-- What can be assigned to: a variable, a field of an object or a field of a type. -/
inductive IsTarget {ι : Type} : Expr ι → Prop
  | name (tag : ι) (name : String) : IsTarget (.name tag name)
  | get (tag : ι) (owner : Expr ι) (name : String) : IsTarget (.get tag owner name)
  | getStatic (tag : ι) (type name : String) : IsTarget (.getStatic tag type name)

/-- The operators that assign what they first compute with the target. -/
def compoundAssignments : List Symbol :=
  [.plusAssign, .minusAssign, .starAssign, .slashAssign, .percentAssign]

/-- The binary operators of a precedence, from the loosest, 1, to the tightest, 6. -/
def binaryOperators : (precedence : Nat) → List Symbol
  | 1 => [.or]
  | 2 => [.and]
  | 3 => [.equal, .notEqual]
  | 4 => [.less, .lessEqual, .greater, .greaterEqual]
  | 5 => [.plus, .minus]
  | 6 => [.star, .slash, .percent]
  | _ => []

/-- The phrases of the grammar, each with the trees it stands for. -/
inductive Phrase where
  | assignment (tree : Expr Token)
  | conditional (tree : Expr Token)
  /-- Operands joined by binary operators of at least the precedence. -/
  | binary (precedence : Nat) (tree : Expr Token)
  | unary (tree : Expr Token)
  /-- An operand with operators after it. -/
  | suffixed (tree : Expr Token)
  /-- An operand with members after it. -/
  | member (tree : Expr Token)
  | primary (tree : Expr Token)
  /-- Arguments in parentheses. -/
  | arguments (trees : List (Expr Token))
  /-- One or more expressions with commas between. -/
  | list (trees : List (Expr Token))

/-- The tokens are the phrase. Unqualified calls are made on the enclosing class. -/
inductive Derives (enclosing : Option String) : Phrase → List Token → Prop
  -- Assignment := Conditional (("=" | "+=" | "-=" | "*=" | "/=" | "%=") Assignment)?
  | ofConditional {tree ts} :
      Derives enclosing (.conditional tree) ts → Derives enclosing (.assignment tree) ts
  | assignName {tag name value ts operator us} :
      Derives enclosing (.conditional (.name tag name)) ts → operator.kind = .symbol .assign →
      Derives enclosing (.assignment value) us →
      Derives enclosing (.assignment (.assign tag name value)) (ts ++ operator :: us)
  | assignField {tag owner name value ts operator us} :
      Derives enclosing (.conditional (.get tag owner name)) ts →
      operator.kind = .symbol .assign → Derives enclosing (.assignment value) us →
      Derives enclosing (.assignment (.set tag owner name value)) (ts ++ operator :: us)
  | assignStatic {tag type name value ts operator us} :
      Derives enclosing (.conditional (.getStatic tag type name)) ts →
      operator.kind = .symbol .assign → Derives enclosing (.assignment value) us →
      Derives enclosing (.assignment (.setStatic tag type name value)) (ts ++ operator :: us)
  | assignCompound {target value ts operator symbol us} : IsTarget target →
      Derives enclosing (.conditional target) ts → operator.kind = .symbol symbol →
      symbol ∈ compoundAssignments → Derives enclosing (.assignment value) us →
      Derives enclosing (.assignment (.operator target.tag (.symbol symbol) [target, value]))
        (ts ++ operator :: us)
  -- Conditional := Binary ("?" Assignment ":" Conditional)?
  | ofBinary {tree ts} :
      Derives enclosing (.binary 1 tree) ts → Derives enclosing (.conditional tree) ts
  | choice {condition holds fails ts question us colon vs} :
      Derives enclosing (.binary 1 condition) ts → question.kind = .symbol .question →
      Derives enclosing (.assignment holds) us → colon.kind = .symbol .colon →
      Derives enclosing (.conditional fails) vs →
      Derives enclosing
        (.conditional (.operator condition.tag .conditional [condition, holds, fails]))
        (ts ++ question :: us ++ colon :: vs)
  -- Binary p := (Binary p operator of precedence p)? Binary (p + 1), where Binary 7 := Unary
  | ofTighter {precedence tree ts} :
      Derives enclosing (.binary (precedence + 1) tree) ts →
      Derives enclosing (.binary precedence tree) ts
  | join {precedence left right ts operator symbol us} :
      Derives enclosing (.binary precedence left) ts → operator.kind = .symbol symbol →
      symbol ∈ binaryOperators precedence → Derives enclosing (.binary (precedence + 1) right) us →
      Derives enclosing (.binary precedence (.operator left.tag (.symbol symbol) [left, right]))
        (ts ++ operator :: us)
  | ofUnary {tree ts} : Derives enclosing (.unary tree) ts → Derives enclosing (.binary 7 tree) ts
  -- Unary := ("!" | "-") Unary | Suffixed
  | leading {operand operator symbol ts} :
      operator.kind = .symbol symbol → symbol ∈ [Symbol.not, .minus] →
      Derives enclosing (.unary operand) ts →
      Derives enclosing (.unary (.operator operator (.symbol symbol) [operand])) (operator :: ts)
  | ofSuffixed {tree ts} :
      Derives enclosing (.suffixed tree) ts → Derives enclosing (.unary tree) ts
  -- Suffixed := Member ("++" | "--")*
  | trailing {operand ts operator symbol} :
      Derives enclosing (.suffixed operand) ts → operator.kind = .symbol symbol →
      symbol ∈ [Symbol.increment, .decrement] →
      Derives enclosing (.suffixed (.operator operand.tag (.symbol symbol) [operand]))
        (ts ++ [operator])
  | ofMember {tree ts} :
      Derives enclosing (.member tree) ts → Derives enclosing (.suffixed tree) ts
  -- Member := Primary ("." NAME Arguments?)*
  | field {owner ts dot name} :
      Derives enclosing (.member owner) ts → dot.kind = .symbol .dot → name.kind = .name →
      Derives enclosing (.member (.get dot owner name.payload)) (ts ++ [dot, name])
  | call {owner ts dot name arguments us} :
      Derives enclosing (.member owner) ts → dot.kind = .symbol .dot → name.kind = .name →
      Derives enclosing (.arguments arguments) us →
      Derives enclosing (.member (.call dot owner name.payload arguments)) (ts ++ dot :: name :: us)
  | ofPrimary {tree ts} :
      Derives enclosing (.primary tree) ts → Derives enclosing (.member tree) ts
  -- Primary := this | true | false | null | INT | FLOAT | STRING | "(" Assignment ")"
  | this {token} : token.kind = .keyword .this → Derives enclosing (.primary (.this token)) [token]
  | true {token} :
      token.kind = .keyword .true → Derives enclosing (.primary (.bool token true)) [token]
  | false {token} :
      token.kind = .keyword .false → Derives enclosing (.primary (.bool token false)) [token]
  | null {token} : token.kind = .keyword .null → Derives enclosing (.primary (.null token)) [token]
  | int {token} : token.kind = .int →
      Derives enclosing (.primary (.int token (Decimal.digitsValue token.payload.toList))) [token]
  | float {token} : token.kind = .float →
      Derives enclosing (.primary (.float token (.ofLiteral token.payload.toList))) [token]
  | string {token} :
      token.kind = .string → Derives enclosing (.primary (.string token token.payload)) [token]
  | parenthesized {opening tree ts closing} : opening.kind = .symbol .parenOpen →
      Derives enclosing (.assignment tree) ts → closing.kind = .symbol .parenClose →
      Derives enclosing (.primary tree) (opening :: ts ++ [closing])
  --   | TYPENAME "." NAME Arguments? | "new" TYPENAME Arguments | NAME Arguments | NAME
  | staticField {type dot name} : type.kind = .typename → dot.kind = .symbol .dot →
      name.kind = .name →
      Derives enclosing (.primary (.getStatic type type.payload name.payload)) [type, dot, name]
  | staticCall {type dot name arguments ts} : type.kind = .typename → dot.kind = .symbol .dot →
      name.kind = .name → Derives enclosing (.arguments arguments) ts →
      Derives enclosing (.primary (.callStatic type (some type.payload) name.payload arguments))
        (type :: dot :: name :: ts)
  | new {word type arguments ts} : word.kind = .name → word.data = some "new" →
      type.kind = .typename → Derives enclosing (.arguments arguments) ts →
      Derives enclosing (.primary (.new word type.payload arguments)) (word :: type :: ts)
  | ownCall {name arguments ts} : name.kind = .name → Derives enclosing (.arguments arguments) ts →
      Derives enclosing (.primary (.callStatic name enclosing name.payload arguments)) (name :: ts)
  | name {token} :
      token.kind = .name → Derives enclosing (.primary (.name token token.payload)) [token]
  -- Arguments := "(" (Assignment ("," Assignment)*)? ")"
  | noArguments {opening closing} : opening.kind = .symbol .parenOpen →
      closing.kind = .symbol .parenClose → Derives enclosing (.arguments []) [opening, closing]
  | someArguments {opening trees ts closing} : opening.kind = .symbol .parenOpen →
      Derives enclosing (.list trees) ts → closing.kind = .symbol .parenClose →
      Derives enclosing (.arguments trees) (opening :: ts ++ [closing])
  | single {tree ts} : Derives enclosing (.assignment tree) ts → Derives enclosing (.list [tree]) ts
  | more {tree ts comma trees us} :
      Derives enclosing (.assignment tree) ts → comma.kind = .symbol .comma →
      Derives enclosing (.list trees) us →
      Derives enclosing (.list (tree :: trees)) (ts ++ comma :: us)

/-- The kinds of token with which operands start. -/
def operandStarts : List Kind :=
  [.keyword .this, .keyword .true, .keyword .false, .keyword .null, .int, .float, .string, .name,
    .typename, .symbol .parenOpen]

/-- The kinds of token with which expressions start. -/
def expressionStarts : List Kind := .symbol .not :: .symbol .minus :: operandStarts

/-- The kinds of token with which a phrase starts. -/
def Phrase.starts : Phrase → List Kind
  | .suffixed _ | .member _ | .primary _ | .arguments _ => operandStarts
  | _ => expressionStarts

/-- The precedence table and the grammar agree on the binary operators. -/
theorem mem_binaryOperators_iff {symbol : Symbol} {precedence : Nat} :
    symbol ∈ binaryOperators precedence ↔ symbol.precedence? = some precedence := by
  constructor
  · intro hmem
    unfold binaryOperators at hmem
    split at hmem <;> cases symbol <;> simp_all [Symbol.precedence?]
  · intro hprecedence
    cases symbol <;> cases hprecedence <;> decide

/-- Every binary operator binds with one of six strengths. -/
theorem le_of_mem_binaryOperators {symbol : Symbol} {precedence : Nat}
    (hmem : symbol ∈ binaryOperators precedence) : 1 ≤ precedence ∧ precedence ≤ 6 := by
  rw [mem_binaryOperators_iff] at hmem
  cases symbol <;> simp [Symbol.precedence?] at hmem <;> omega

namespace Derives

variable {enclosing : Option String} {ts : List Token} {tree : Expr Token}

/-- A level that binds tighter is part of every looser one. -/
theorem looser {precedence least : Nat} (hle : least ≤ precedence)
    (hderives : Derives enclosing (.binary precedence tree) ts) :
    Derives enclosing (.binary least tree) ts := by
  induction hle with
  | refl => exact hderives
  | step _ ih => exact ih hderives.ofTighter

/-- A phrase is not empty, and its first token tells which sort of phrase it can be. -/
theorem head {phrase : Phrase} (hderives : Derives enclosing phrase ts) :
    ∃ token rest, ts = token :: rest ∧ token.kind ∈ phrase.starts := by
  have hsub (kind : Kind) (hkind : kind ∈ operandStarts) : kind ∈ expressionStarts :=
    List.mem_cons_of_mem _ (List.mem_cons_of_mem _ hkind)
  induction hderives with
  | ofConditional _ ih | ofBinary _ ih | ofTighter _ ih | ofUnary _ ih | ofMember _ ih
  | ofPrimary _ ih | single _ ih => exact ih
  | ofSuffixed _ ih =>
      obtain ⟨token, rest, rfl, hkind⟩ := ih
      exact ⟨token, rest, rfl, hsub _ hkind⟩
  | assignName _ _ _ ih | assignField _ _ _ ih | assignStatic _ _ _ ih | assignCompound _ _ _ _ _ ih
  | choice _ _ _ _ _ ih | join _ _ _ _ ih | trailing _ _ _ ih | field _ _ _ ih | call _ _ _ _ ih
  | more _ _ _ ih =>
      obtain ⟨token, rest, rfl, hkind⟩ := ih
      exact ⟨token, _, rfl, hkind⟩
  | leading hkind hmem =>
      simp only [List.mem_cons, List.not_mem_nil, or_false] at hmem
      rcases hmem with rfl | rfl <;>
        exact ⟨_, _, rfl, by simp [hkind, Phrase.starts, expressionStarts]⟩
  | this hkind | true hkind | false hkind | null hkind | int hkind | float hkind | string hkind
  | parenthesized hkind | staticField hkind | staticCall hkind | new hkind | ownCall hkind
  | name hkind | noArguments hkind | someArguments hkind =>
      exact ⟨_, _, rfl, by simp [hkind, Phrase.starts, operandStarts]⟩

/-- The arguments of a call are expressions in parentheses. -/
theorem arguments_iff {trees : List (Expr Token)} :
    Derives enclosing (.arguments trees) ts ↔
      Parenthesized (fun ts tree => Derives enclosing (.assignment tree) ts) ts trees := by
  have hlist {ts trees} : Derives enclosing (.list trees) ts ↔
      CommaSeparated (fun ts tree => Derives enclosing (.assignment tree) ts) ts trees := by
    constructor
    · intro hderives
      induction trees generalizing ts with
      | nil => cases hderives
      | cons first rest ih =>
          cases hderives with
          | single hfirst => exact .single hfirst
          | more hfirst hcomma hrest => exact .more hfirst hcomma (ih hrest)
    · intro hseparated
      induction hseparated with
      | single hfirst => exact .single hfirst
      | more hfirst hcomma _ ih => exact .more hfirst hcomma ih
  constructor
  · intro hderives
    cases hderives with
    | noArguments hopening hclosing => exact .empty hopening hclosing
    | someArguments hopening htrees hclosing => exact .items hopening (hlist.mp htrees) hclosing
  · intro hparenthesized
    cases hparenthesized with
    | empty hopening hclosing => exact .noArguments hopening hclosing
    | items hopening htrees hclosing =>
        exact .someArguments hopening (hlist.mpr htrees) hclosing

end Derives

end ClassLang.Syntax
