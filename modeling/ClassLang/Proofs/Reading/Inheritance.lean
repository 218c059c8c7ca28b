import ClassLang.Grammar.Reading

/-! # What every rule inherits

A relation between parsers that passes to what is made of them in the same way, and in which looking
at a token, taking it and failing stand to themselves, holds of the parsers of every rule if it
holds of those one level further in.
-/

namespace ClassLang

/-- The relation passes from parsers to what is made of them. -/
structure Parser.Inherited (related : {α : Type} → Parser α → Parser α → Prop) : Prop where
  pure {α : Type} (value : α) : related (Pure.pure value : Parser α) (Pure.pure value)
  fail {α : Type} (failure : Failure) : related (throw failure : Parser α) (throw failure)
  bind {α β : Type} {parser other : Parser α} {continuation rest : α → Parser β} :
    related parser other → (∀ value, related (continuation value) (rest value)) →
    related (parser >>= continuation) (other >>= rest)
  peek : related Parser.peek Parser.peek
  advance : related Parser.advance Parser.advance
  iterate {α : Type} {step extension : α → Parser (Option α)} (value : α) :
    (∀ value, related (step value) (extension value)) →
    related (Parser.iterate step value) (Parser.iterate extension value)
  many {α : Type} {step extension : Parser (Option α)} : related step extension →
    related (Parser.many step) (Parser.many extension)

namespace Parser.Inherited

variable {related : {α : Type} → Parser α → Parser α → Prop} {α β : Type}
  {parser other : Parser α} (hrelated : Inherited related)

include hrelated

theorem map {f : α → β} (hparser : related parser other) :
    related (f <$> parser) (f <$> other) := by
  rw [← bind_pure_comp]
  exact hrelated.bind hparser fun value => hrelated.pure (f value)

theorem refuse (cause : GrammarCause) (token : Token) :
    related (Parser.refuse cause token : Parser α) (Parser.refuse cause token) :=
  hrelated.fail _

theorem isAt (kind : Kind) : related (Parser.isAt kind) (Parser.isAt kind) :=
  hrelated.bind hrelated.peek fun _ => hrelated.pure _

theorem isAtWord (word : String) : related (Parser.isAtWord word) (Parser.isAtWord word) :=
  hrelated.bind hrelated.peek fun _ => hrelated.pure _

theorem takeIf {test : Prop} [Decidable test] :
    related (if test then some <$> Parser.advance else Pure.pure none)
      (if test then some <$> Parser.advance else Pure.pure none) := by
  split
  · exact hrelated.map hrelated.advance
  · exact hrelated.pure none

theorem take? (kind : Kind) : related (Parser.take? kind) (Parser.take? kind) :=
  hrelated.bind (hrelated.isAt kind) fun _ => hrelated.takeIf

theorem takeWord? (word : String) : related (Parser.takeWord? word) (Parser.takeWord? word) :=
  hrelated.bind (hrelated.isAtWord word) fun _ => hrelated.takeIf

theorem takeAny? (kinds : List Kind) : related (Parser.takeAny? kinds) (Parser.takeAny? kinds) :=
  hrelated.bind hrelated.peek fun _ => hrelated.takeIf

theorem takeSymbol? (symbols : List Symbol) :
    related (Parser.takeSymbol? symbols) (Parser.takeSymbol? symbols) := by
  refine hrelated.bind hrelated.peek fun token => ?_
  split
  · split
    · exact hrelated.bind hrelated.advance fun _ => hrelated.pure _
    · exact hrelated.pure none
  · exact hrelated.pure none

theorem expect (kind : Kind) : related (Parser.expect kind) (Parser.expect kind) := by
  refine hrelated.bind (hrelated.isAt kind) fun answer => ?_
  split
  · exact hrelated.advance
  · exact hrelated.bind hrelated.peek fun token => hrelated.refuse _ token

theorem expectSymbol (symbol : Symbol) :
    related (Parser.expectSymbol symbol) (Parser.expectSymbol symbol) :=
  hrelated.expect _

theorem expectName : related Parser.expectName Parser.expectName :=
  hrelated.map (hrelated.expect _)

theorem expectTypename : related Parser.expectTypename Parser.expectTypename :=
  hrelated.map (hrelated.expect _)

/-- A value is read, or none is. -/
theorem readIf {test : Prop} [Decidable test] (hparser : related parser other) :
    related (if test then some <$> parser else Pure.pure none)
      (if test then some <$> other else Pure.pure none) := by
  split
  · exact hrelated.map hparser
  · exact hrelated.pure none

theorem readUnless {test : Prop} [Decidable test] (hparser : related parser other) :
    related (if test then Pure.pure none else some <$> parser)
      (if test then Pure.pure none else some <$> other) := by
  split
  · exact hrelated.pure none
  · exact hrelated.map hparser

theorem manyUntil {close : Kind} (hparser : related parser other) :
    related (Parser.manyUntil close parser) (Parser.manyUntil close other) :=
  hrelated.many (hrelated.bind (hrelated.take? close) fun _ => hrelated.readUnless hparser)

theorem commaSeparated (hparser : related parser other) :
    related (Parser.commaSeparated parser) (Parser.commaSeparated other) :=
  hrelated.bind hparser fun _ =>
    hrelated.bind
      (hrelated.many (hrelated.bind (hrelated.take? _) fun _ => hrelated.readIf hparser))
      fun _ => hrelated.pure _

theorem parenthesizedList (hparser : related parser other) :
    related (Parser.parenthesizedList parser) (Parser.parenthesizedList other) := by
  refine hrelated.bind (hrelated.expectSymbol _) fun _ =>
    hrelated.bind (hrelated.take? _) fun closes => ?_
  split
  · exact hrelated.pure []
  · exact hrelated.bind (hrelated.commaSeparated hparser) fun _ =>
      hrelated.bind (hrelated.expectSymbol _) fun _ => hrelated.pure _

theorem integer (level : Level) (token : Token) :
    related (level.integer token) (level.integer token) := by
  unfold Level.integer
  dsimp only
  split
  · exact hrelated.fail _
  · exact hrelated.pure _

end Parser.Inherited

/-! ## The rules -/

/-- The relation is inherited, and it holds between the rules of the levels. -/
structure Level.Inherits (related : {α : Type} → Parser α → Parser α → Prop)
    (level other : Level) : Prop extends Parser.Inherited related where
  integer (token : Token) : related (level.integer token) (other.integer token)
  read {α : Type} (enclosing : Option String) (rule : Rule α) :
    related (level.read enclosing rule) (other.read enclosing rule)

namespace Level.Inherits

variable {related : {α : Type} → Parser α → Parser α → Prop} {level other : Level}
  (hlevel : level.Inherits related other) (enclosing : Option String)

include hlevel

theorem assignment (left : Option (Expr Token)) :
    related (level.assignment enclosing left) (other.assignment enclosing left) := by
  refine hlevel.bind (hlevel.read _ _) fun target => hlevel.bind (hlevel.takeSymbol? _) fun
    | none => hlevel.pure _
    | some (token, operator) => hlevel.bind (hlevel.read _ _) fun value => ?_
  split
  · exact hlevel.pure _
  · exact hlevel.refuse _ token

theorem conditional (left : Option (Expr Token)) :
    related (level.conditional enclosing left) (other.conditional enclosing left) := by
  refine hlevel.bind (hlevel.read _ _) fun condition => hlevel.bind (hlevel.take? _)
    fun question => ?_
  split
  · exact hlevel.pure _
  · exact hlevel.bind (hlevel.read _ _) fun holds => hlevel.bind (hlevel.expectSymbol _)
      fun colon => hlevel.bind (hlevel.read _ _) fun fails => hlevel.pure _

theorem joinBinary (least : Nat) (left : Expr Token) :
    related (level.joinBinary enclosing least left) (other.joinBinary enclosing least left) := by
  refine hlevel.bind hlevel.peek fun token => ?_
  split
  · exact hlevel.pure _
  · refine hlevel.bind hlevel.advance fun _ => ?_
    split
    · exact hlevel.bind (hlevel.read _ _) fun right => hlevel.pure _
    · exact hlevel.fail _

theorem binary (least : Nat) (left : Option (Expr Token)) :
    related (level.binary enclosing least left) (other.binary enclosing least left) := by
  have hloop (first : Expr Token) :
      related (Parser.iterate (level.joinBinary enclosing least) first)
        (Parser.iterate (other.joinBinary enclosing least) first) :=
    hlevel.iterate first fun left => hlevel.joinBinary enclosing least left
  cases left with
  | none => exact hlevel.bind (hlevel.read _ _) hloop
  | some first => exact hlevel.bind (hlevel.pure _) hloop

theorem unary : related (level.unary enclosing) (other.unary enclosing) :=
  hlevel.bind (hlevel.takeSymbol? _) fun
    | none => hlevel.read _ _
    | some _ => hlevel.bind (hlevel.read _ _) fun _ => hlevel.pure _

theorem applyTrailing (operand : Expr Token) :
    related (applyTrailing operand) (applyTrailing operand) :=
  hlevel.bind (hlevel.takeSymbol? _) fun
    | none => hlevel.pure _
    | some _ => hlevel.pure _

theorem suffixed (primary : Option (Expr Token)) :
    related (level.suffixed enclosing primary) (other.suffixed enclosing primary) := by
  have hrest (first : Expr Token) :=
    hlevel.bind (hlevel.read enclosing (.memberAccess first)) fun operand =>
      hlevel.iterate operand fun operand => hlevel.applyTrailing operand
  cases primary with
  | none => exact hlevel.bind (hlevel.read _ _) hrest
  | some first => exact hlevel.bind (hlevel.pure _) hrest

theorem accessMember (owner : Expr Token) :
    related (level.accessMember enclosing owner) (other.accessMember enclosing owner) := by
  refine hlevel.bind (hlevel.take? _) fun
    | none => hlevel.pure _
    | some token => hlevel.bind hlevel.expectName fun name =>
        hlevel.bind (hlevel.isAt _) fun opens => ?_
  split
  · exact hlevel.bind (hlevel.read _ _) fun arguments => hlevel.pure _
  · exact hlevel.pure _

theorem staticMember (owner : Token) :
    related (level.staticMember enclosing owner) (other.staticMember enclosing owner) := by
  refine hlevel.bind (hlevel.expectSymbol _) fun dot => hlevel.bind hlevel.expectName
    fun name => hlevel.bind (hlevel.isAt _) fun opens => ?_
  split
  · exact hlevel.bind (hlevel.read _ _) fun arguments => hlevel.pure _
  · exact hlevel.pure _

theorem callOrName (token : Token) :
    related (level.callOrName enclosing token) (other.callOrName enclosing token) := by
  refine hlevel.bind (hlevel.isAt _) fun opens => ?_
  split
  · exact hlevel.bind (hlevel.read _ _) fun arguments => hlevel.pure _
  · exact hlevel.pure _

theorem named (token : Token) :
    related (level.named enclosing token) (other.named enclosing token) := by
  have hcall := hlevel.callOrName enclosing token
  unfold Level.named
  split
  · refine hlevel.bind (hlevel.isAt _) fun typed => ?_
    split
    · exact hlevel.bind hlevel.expectTypename fun type => hlevel.bind (hlevel.read _ _)
        fun arguments => hlevel.pure _
    · exact hcall
  · exact hcall

theorem primary : related (level.primary enclosing) (other.primary enclosing) := by
  refine hlevel.bind hlevel.peek fun token => ?_
  split
  case h_5 => exact hlevel.bind hlevel.advance fun _ => hlevel.integer token
  case h_8 =>
    exact hlevel.bind hlevel.advance fun _ => hlevel.bind (hlevel.read _ _) fun expression =>
      hlevel.bind (hlevel.expectSymbol _) fun _ => hlevel.pure _
  case h_9 => exact hlevel.bind hlevel.advance fun _ => hlevel.read _ _
  case h_10 =>
    exact hlevel.bind hlevel.advance fun _ =>
      hlevel.named enclosing token
  case h_11 => exact hlevel.refuse _ token
  all_goals exact hlevel.bind hlevel.advance fun _ => hlevel.pure _

theorem parenthesized : related (level.parenthesized enclosing) (other.parenthesized enclosing) :=
  hlevel.bind (hlevel.expectSymbol _) fun _ => hlevel.bind (hlevel.read _ _) fun _ =>
    hlevel.bind (hlevel.expectSymbol _) fun _ => hlevel.pure _

theorem block : related (level.block enclosing) (other.block enclosing) :=
  hlevel.bind (hlevel.expectSymbol _) fun _ =>
    hlevel.bind (hlevel.manyUntil (hlevel.read _ _)) fun _ => hlevel.pure _

theorem expressionUnless (close : Symbol) :
    related (level.expressionUnless enclosing close) (other.expressionUnless enclosing close) :=
  hlevel.bind (hlevel.isAt _) fun _ => hlevel.readUnless (hlevel.read _ _)

theorem firstValue : related (level.firstValue enclosing) (other.firstValue enclosing) :=
  hlevel.bind (hlevel.take? _) fun _ => hlevel.readIf (hlevel.read _ _)

theorem statement : related (level.statement enclosing) (other.statement enclosing) := by
  refine hlevel.bind hlevel.peek fun token => ?_
  split
  case h_1 => exact hlevel.read _ _
  case h_2 => exact hlevel.bind hlevel.advance fun _ => hlevel.read _ _
  case h_3 =>
    exact hlevel.bind hlevel.advance fun _ => hlevel.bind (hlevel.read _ _) fun condition =>
      hlevel.bind (hlevel.read _ _) fun body => hlevel.pure _
  case h_4 => exact hlevel.bind hlevel.advance fun _ => hlevel.read _ _
  case h_5 =>
    exact hlevel.bind hlevel.advance fun _ =>
      hlevel.bind (hlevel.expressionUnless enclosing _) fun value =>
        hlevel.bind (hlevel.expectSymbol _) fun _ => hlevel.pure _
  case h_8 =>
    exact hlevel.bind (hlevel.read _ _) fun simple => hlevel.bind (hlevel.expectSymbol _)
      fun _ => hlevel.pure _
  all_goals
    exact hlevel.bind hlevel.advance fun _ => hlevel.bind (hlevel.expectSymbol _)
      fun _ => hlevel.pure _

theorem simpleStatement :
    related (level.simpleStatement enclosing) (other.simpleStatement enclosing) := by
  refine hlevel.bind hlevel.peek fun token => ?_
  split
  · exact hlevel.bind hlevel.advance fun _ => hlevel.read _ _
  · refine hlevel.bind hlevel.advance fun _ => hlevel.bind (hlevel.isAt _)
      fun named => ?_
    split
    · exact hlevel.read _ _
    · exact hlevel.bind (hlevel.read _ _) fun member => hlevel.bind (hlevel.read _ _) fun left =>
        hlevel.bind (hlevel.read _ _) fun expression => hlevel.pure _
  · exact hlevel.bind (hlevel.read _ _) fun expression => hlevel.pure _

theorem declaration (token : Token) (type : String) :
    related (level.declaration enclosing token type) (other.declaration enclosing token type) :=
  hlevel.bind hlevel.expectName fun _ =>
    hlevel.bind (hlevel.firstValue enclosing) fun _ => hlevel.pure _

theorem ifStatement (token : Token) :
    related (level.ifStatement enclosing token) (other.ifStatement enclosing token) := by
  refine hlevel.bind (hlevel.read _ _) fun condition => hlevel.bind (hlevel.read _ _) fun body =>
    hlevel.bind (hlevel.take? _) fun elseWord => ?_
  split
  · exact hlevel.pure _
  · refine hlevel.bind hlevel.peek fun next => hlevel.bind (hlevel.take? _)
      fun ifWord => ?_
    split
    · exact hlevel.bind (hlevel.read _ _) fun chained => hlevel.pure _
    · exact hlevel.bind (hlevel.read _ _) fun alternative => hlevel.pure _

theorem forStatement (token : Token) :
    related (level.forStatement enclosing token) (other.forStatement enclosing token) := by
  have hrest (first : Option (Stmt Token)) := hlevel.bind (hlevel.expectSymbol .semicolon)
    fun _ => hlevel.bind (hlevel.expressionUnless enclosing .semicolon)
      fun condition => hlevel.bind (hlevel.expectSymbol .semicolon) fun _ =>
        hlevel.bind (hlevel.expressionUnless enclosing .parenClose)
          fun step => hlevel.bind (hlevel.expectSymbol .parenClose) fun _ =>
            hlevel.bind (hlevel.read enclosing .block) fun body =>
              hlevel.pure (Stmt.forLoop token first condition step body)
  refine hlevel.bind (hlevel.expectSymbol _) fun _ => hlevel.bind (hlevel.isAt _)
    fun empty => ?_
  split
  · exact hlevel.bind (hlevel.pure none) hrest
  · exact hlevel.bind (hlevel.map (hlevel.read _ _)) hrest

theorem accessModifier : related accessModifier accessModifier :=
  hlevel.bind (hlevel.takeAny? _) fun
    | none => hlevel.pure _
    | some _ => hlevel.pure _

theorem baseType : related baseType baseType := by
  refine hlevel.bind (hlevel.takeWord? _) fun taken => ?_
  split
  · exact hlevel.expectTypename
  · exact hlevel.pure _

theorem argument : related argument argument :=
  hlevel.bind hlevel.peek fun _ => hlevel.bind hlevel.expectTypename fun _ =>
    hlevel.bind hlevel.expectName fun _ => hlevel.pure _

theorem typesAfter (word : String) :
    related (level.typesAfter enclosing word) (other.typesAfter enclosing word) := by
  refine hlevel.bind (hlevel.takeWord? _) fun taken => ?_
  split
  · exact hlevel.read _ _
  · exact hlevel.pure _

theorem methodStub : related (level.methodStub enclosing) (other.methodStub enclosing) := by
  refine hlevel.bind hlevel.peek fun token =>
    hlevel.bind (hlevel.accessModifier) fun access => ?_
  split
  · exact hlevel.refuse _ token
  · exact hlevel.bind hlevel.expectTypename fun _ => hlevel.bind hlevel.expectName
      fun _ => hlevel.bind (hlevel.read _ _) fun _ => hlevel.bind (hlevel.expectSymbol _)
        fun _ => hlevel.pure _

theorem member : related (level.member enclosing) (other.member enclosing) := by
  refine hlevel.bind hlevel.peek fun token =>
    hlevel.bind (hlevel.accessModifier) fun access =>
      hlevel.bind (hlevel.map (hlevel.take? _)) fun isStatic =>
        hlevel.bind hlevel.expectTypename fun type => hlevel.bind hlevel.expectName
          fun name => hlevel.bind (hlevel.isAt _) fun opens => ?_
  split
  · exact hlevel.bind (hlevel.read _ _) fun arguments => hlevel.bind (hlevel.read _ _) fun body =>
      hlevel.pure _
  · exact hlevel.bind (hlevel.firstValue enclosing) fun value =>
      hlevel.bind (hlevel.expectSymbol _) fun _ => hlevel.pure _

theorem classDeclaration (token : Token) (access : Access) :
    related (level.classDeclaration enclosing token access)
      (other.classDeclaration enclosing token access) :=
  hlevel.bind (hlevel.expect _) fun _ => hlevel.bind hlevel.expectTypename fun name =>
    hlevel.bind (hlevel.baseType) fun _ =>
      hlevel.bind (hlevel.typesAfter enclosing _) fun _ =>
        hlevel.bind (hlevel.expectSymbol _) fun _ =>
          hlevel.bind (hlevel.manyUntil (hlevel.read (some name) _)) fun _ => hlevel.pure _

theorem interfaceDeclaration (token : Token) (access : Access) :
    related (level.interfaceDeclaration enclosing token access)
      (other.interfaceDeclaration enclosing token access) :=
  hlevel.bind (hlevel.expect _) fun _ => hlevel.bind hlevel.expectTypename fun _ =>
    hlevel.bind (hlevel.typesAfter enclosing _) fun _ =>
      hlevel.bind (hlevel.expectSymbol _) fun _ =>
        hlevel.bind (hlevel.manyUntil (hlevel.read _ _)) fun _ => hlevel.pure _

theorem topLevel : related (level.topLevel enclosing) (other.topLevel enclosing) := by
  refine hlevel.bind hlevel.peek fun token =>
    hlevel.bind (hlevel.accessModifier) fun access =>
      hlevel.bind (hlevel.isAt _) fun isClass => ?_
  split
  · exact hlevel.map (hlevel.read _ _)
  · refine hlevel.bind (hlevel.isAt _) fun isInterface => ?_
    split
    · exact hlevel.map (hlevel.read _ _)
    · exact hlevel.bind hlevel.peek fun next => hlevel.refuse _ next

theorem module : related (level.module enclosing) (other.module enclosing) :=
  hlevel.bind hlevel.peek fun _ =>
    hlevel.bind
      (hlevel.many (hlevel.bind (hlevel.isAt _) fun _ =>
        hlevel.readUnless (hlevel.topLevel enclosing)))
      fun _ => hlevel.pure _

/-- What the rules one level further in have, every rule has. -/
theorem apply {α : Type} (rule : Rule α) :
    related (level.apply enclosing rule) (other.apply enclosing rule) := by
  cases rule with
  | expression => exact hlevel.read _ _
  | assignment left => exact hlevel.assignment enclosing left
  | conditional left => exact hlevel.conditional enclosing left
  | binary least left => exact hlevel.binary enclosing least left
  | unary => exact hlevel.unary enclosing
  | suffixed primary => exact hlevel.suffixed enclosing primary
  | memberAccess owner =>
      exact hlevel.iterate owner fun owner =>
        hlevel.accessMember enclosing owner
  | staticMember owner => exact hlevel.staticMember enclosing owner
  | primary => exact hlevel.primary enclosing
  | expressionList => exact hlevel.parenthesizedList (hlevel.read _ _)
  | parenthesized => exact hlevel.parenthesized enclosing
  | block => exact hlevel.block enclosing
  | statement => exact hlevel.statement enclosing
  | simpleStatement => exact hlevel.simpleStatement enclosing
  | declaration token type => exact hlevel.declaration enclosing token type
  | ifStatement token => exact hlevel.ifStatement enclosing token
  | forStatement token => exact hlevel.forStatement enclosing token
  | typeList => exact hlevel.commaSeparated hlevel.expectTypename
  | argument => exact hlevel.argument
  | argumentList => exact hlevel.parenthesizedList (hlevel.read _ _)
  | methodStub => exact hlevel.methodStub enclosing
  | member => exact hlevel.member enclosing
  | classDeclaration token access =>
      exact hlevel.classDeclaration enclosing token access
  | interfaceDeclaration token access =>
      exact hlevel.interfaceDeclaration enclosing token access
  | module => exact hlevel.module enclosing

end Level.Inherits

/-- To whatever depth rules may nest, what is inherited holds of a level and itself. -/
theorem Level.inherits_bounded {related : {α : Type} → Parser α → Parser α → Prop}
    (hrelated : Parser.Inherited related) (digits : Option Nat) (depth : Nat) :
    (bounded digits depth).Inherits related (bounded digits depth) := by
  induction depth with
  | zero =>
      -- every rule is refused here
      exact ⟨hrelated, hrelated.integer _, fun _ _ =>
        hrelated.bind hrelated.peek fun token => hrelated.refuse _ token⟩
  | succ depth ih =>
      exact ⟨hrelated, hrelated.integer _, fun enclosing rule => ih.apply enclosing rule⟩

end ClassLang
