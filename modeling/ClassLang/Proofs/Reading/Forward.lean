import ClassLang.Proofs.Reading.Concatenation
import ClassLang.Proofs.Reading.Rounds
import ClassLang.Proofs.Stream.Ahead

/-! # Reading goes forward

The end of the text is shown again and again, so a repetition might wait for ever for a token that
closes it. It does not: whatever a rule comes to, tokens are only handed out on the way, and a rule
that stands for tokens of its own hands out at least one or fails. So every repetition ends, at the
end of the text at the latest, because its round fails there.
-/

namespace ClassLang

namespace TokenStream

variable {α β : Type} {stream middle next last : TokenStream} {tokens : List Token}

/-! ## What comes of a parser -/

/-- What comes of a parser comes of handing out tokens, among which the end of the text never is.
Where the parser fails, the scan for one more token may have failed. -/
inductive LeadsTo (stream : TokenStream) : EStateM.Result Failure TokenStream α → Prop
  | ok {value tokens next} : stream.Passes tokens next → LeadsTo stream (.ok value next)
  | error {failure tokens last} : stream.Passes tokens last → LeadsTo stream (.error failure last)
  | scan {error tokens reached last} : stream.Passes tokens reached → reached.Fails error last →
      LeadsTo stream (.error (.lexical error) last)

variable {result : EStateM.Result Failure TokenStream α}

theorem LeadsTo.after (hpasses : stream.Passes tokens middle) (hleads : middle.LeadsTo result) :
    stream.LeadsTo result := by
  cases hleads with
  | ok hrest => exact .ok (hpasses.append hrest)
  | error hrest => exact .error (hpasses.append hrest)
  | scan hrest hfails => exact .scan (hpasses.append hrest) hfails

theorem LeadsTo.passes {value : α}
    (hleads : stream.LeadsTo (.ok value next : EStateM.Result Failure TokenStream α)) :
    ∃ tokens, stream.Passes tokens next := by
  cases hleads with
  | ok hpasses => exact ⟨_, hpasses⟩

/-- A failure is one whatever has been read for. -/
theorem LeadsTo.of_error {failure : Failure}
    (hleads : stream.LeadsTo (.error failure last : EStateM.Result Failure TokenStream α)) :
    stream.LeadsTo (.error failure last : EStateM.Result Failure TokenStream β) := by
  cases hleads with
  | error hpasses => exact .error hpasses
  | scan hpasses hfails => exact .scan hpasses hfails

/-- The end of the text is not passed. -/
theorem LeadsTo.eq_of_atEnd (hend : stream.atEnd) (hleads : stream.LeadsTo result) :
    (∃ value, result = .ok value stream) ∨ ∃ failure, result = .error failure stream := by
  cases hleads with
  | ok hpasses =>
      obtain rfl := hpasses.eq_of_atEnd hend
      exact .inl ⟨_, rfl⟩
  | error hpasses =>
      obtain rfl := hpasses.eq_of_atEnd hend
      exact .inr ⟨_, rfl⟩
  | scan hpasses hfails =>
      obtain rfl := hpasses.eq_of_atEnd hend
      simp [hfails.1] at hend

end TokenStream

open TokenStream

namespace Parser

variable {α β : Type} {parser : Parser α} {stream next : TokenStream} {value : α}

/-- Wherever the parser is run, tokens are handed out and nothing else happens to the stream. -/
def Forward (parser : Parser α) : Prop :=
  ∀ stream : TokenStream, stream.LeadsTo (parser stream)

namespace Forward

theorem passes (hparser : Forward parser) (hyields : Yields parser stream value next) :
    ∃ tokens, stream.Passes tokens next := by
  have hleads := hparser stream
  rw [hyields] at hleads
  exact hleads.passes

theorem advance : Forward Parser.advance := by
  intro stream
  by_cases hend : stream.atEnd
  · rw [advance_of_atEnd hend]
    exact .ok (.nil _)
  · have hopen : stream.atEnd = false := eq_false_of_ne_true hend
    cases hscan : scan stream.upcoming with
    | ok next =>
        rw [advance_of_scan hopen hscan]
        exact .ok (.single (hands_of_scan (of_decide_eq_false hopen) hscan))
    | error error =>
        rw [advance_of_scan_error hopen hscan]
        exact .scan (.nil _) ⟨hopen, by simp [TokenStream.advance, hopen, hscan]⟩

theorem bind {continuation : α → Parser β} (hparser : Forward parser)
    (hrest : ∀ value, Forward (continuation value)) : Forward (parser >>= continuation) := by
  intro stream
  have hleads := hparser stream
  cases hfirst : parser stream with
  | ok value middle =>
      rw [hfirst] at hleads
      obtain ⟨tokens, hpasses⟩ := hleads.passes
      rw [bind_of_yields hfirst]
      exact .after hpasses (hrest value middle)
  | error failure last =>
      rw [hfirst] at hleads
      rw [bind_of_error hfirst]
      exact hleads.of_error

theorem iterate {round : α → Parser (Option α)} (hround : ∀ value, Forward (round value))
    (value : α) : Forward (Parser.iterate round value) := by
  intro stream
  fun_induction Parser.iterate round value stream with
  | case1 value stream failure next hresult =>
      have hleads := hround value stream
      rw [hresult] at hleads
      exact hleads.of_error
  | case2 value stream next hresult =>
      obtain ⟨tokens, hpasses⟩ := (hround value).passes hresult
      exact .ok hpasses
  | case3 value stream extended next hresult _ ih =>
      obtain ⟨tokens, hpasses⟩ := (hround value).passes hresult
      exact .after hpasses ih
  | case4 value stream extended next hresult _ =>
      obtain ⟨tokens, hpasses⟩ := (hround value).passes hresult
      exact .ok hpasses

theorem map {f : α → β} (hparser : Forward parser) : Forward (f <$> parser) := by
  rw [← bind_pure_comp]
  exact hparser.bind fun value stream => .ok (.nil _)

theorem many {step : Parser (Option α)} (hstep : Forward step) : Forward (Parser.many step) := by
  rw [many_eq_iterate]
  exact .iterate (fun values => hstep.map) []

end Forward

/-- The relation of a parser that goes forward to itself. -/
def SameForward (parser other : Parser α) : Prop := parser = other ∧ Forward parser

theorem inherited_forward : Inherited SameForward where
  pure _ := ⟨rfl, fun _ => .ok (.nil _)⟩
  fail _ := ⟨rfl, fun _ => .error (.nil _)⟩
  bind := by
    rintro _ _ parser _ continuation rest ⟨rfl, hparser⟩ hrest
    obtain rfl : continuation = rest := funext fun value => (hrest value).1
    exact ⟨rfl, hparser.bind fun value => (hrest value).2⟩
  peek := ⟨rfl, fun _ => .ok (.nil _)⟩
  advance := ⟨rfl, .advance⟩
  iterate := by
    intro _ step extension value hstep
    obtain rfl : step = extension := funext fun value => (hstep value).1
    exact ⟨rfl, .iterate (fun value => (hstep value).2) value⟩
  many := by
    rintro _ step _ ⟨rfl, hstep⟩
    exact ⟨rfl, .many hstep⟩

/-- No such phrase is empty, so at least one token is taken for it. -/
theorem Sound.advances {phrase : List Token → α → Prop} (hsound : Sound parser phrase)
    (hnil : ∀ value, ¬ phrase [] value) (hyields : Yields parser stream value next) :
    stream.Advances next := by
  obtain ⟨tokens, hpasses, hphrase⟩ := hsound _ _ _ hyields
  cases tokens with
  | nil => exact absurd hphrase (hnil value)
  | cons token rest => exact hpasses.advances

/-- The round of `manyUntil`: an item, unless the closing token is there to be taken. -/
def unlessClosed (close : Kind) (item : Parser α) : Parser (Option α) := do
  if (← take? close).isSome then return none else some <$> item

/-- The round of `commaSeparated` behind the first item. -/
def afterComma (item : Parser α) : Parser (Option α) := do
  if (← take? (.symbol .comma)).isSome then some <$> item else return none

theorem advances_unlessClosed {close : Kind} (hclose : close ≠ .endOfText)
    (hitem : ∀ value next, Yields parser stream value next → stream.Advances next)
    (hround : Yields (unlessClosed close parser) stream (some value) next) :
    stream.Advances next := by
  obtain ⟨_, value', hvalue, _⟩ | ⟨_, _, _, hnone⟩ := (yields_untilStep hclose).mp hround
  · exact hitem _ _ hvalue
  · cases hnone

theorem advances_afterComma (hitem : Forward parser)
    (hround : Yields (afterComma parser) stream (some value) next) : stream.Advances next := by
  obtain ⟨_, hnone, _⟩ | ⟨comma, _, middle, hhands, value', hvalue, _⟩ :=
    yields_afterComma.mp hround
  · cases hnone
  · obtain ⟨tokens, hpasses⟩ := hitem.passes hvalue
    exact hhands.advances_of_passes hpasses

end Parser

/-! ## Rules that take tokens -/

/-- The rules that stand for tokens of their own. -/
inductive Rule.TakesTokens : {α : Type} → Rule α → Prop
  | expression : TakesTokens (.expression none)
  | expressionList : TakesTokens .expressionList
  | block : TakesTokens .block
  | statement : TakesTokens .statement
  | simpleStatement : TakesTokens .simpleStatement
  | typeList : TakesTokens .typeList
  | argument : TakesTokens .argument
  | argumentList : TakesTokens .argumentList
  | methodStub : TakesTokens .methodStub
  | member : TakesTokens .member
  | classDeclaration (token : Token) (access : Access) :
      TakesTokens (.classDeclaration token access)
  | interfaceDeclaration (token : Token) (access : Access) :
      TakesTokens (.interfaceDeclaration token access)

namespace Level

open ClassLang.Parser Syntax

variable {digits : Option Nat} {depth : Nat} {enclosing : Option String}
  {stream next : TokenStream} {α : Type}

theorem forward_read (digits : Option Nat) (depth : Nat) (enclosing : Option String)
    (rule : Rule α) : Forward ((bounded digits depth).read enclosing rule) :=
  ((inherits_bounded inherited_forward digits depth).read enclosing rule).2

/-- Where a rule that stands for tokens of its own yields a value, it has taken some. -/
theorem advances_read {rule : Rule α} {value : α} (hrule : rule.TakesTokens)
    (hyields : Yields ((bounded digits depth).read enclosing rule) stream value next) :
    stream.Advances next := by
  have hexpressions := bounded_soundExpressions digits depth enclosing
  have hstatements := bounded_soundStatements digits depth enclosing
  cases hrule with
  | expression =>
      exact hexpressions.expression.advances (fun _ h => by simpa using h.head) hyields
  | expressionList =>
      exact hexpressions.expressionList.advances (fun _ h => by simpa using h.head) hyields
  | block => exact hstatements.block.advances (fun _ h => by simpa using h.head_block) hyields
  | statement =>
      exact hstatements.statement.advances (fun _ h => by simpa using h.head_statement) hyields
  | simpleStatement =>
      exact hstatements.simpleStatement.advances (fun _ h => by simpa using h.head) hyields
  | typeList =>
      have hstart : Starts IsType (·.kind = .typename) := by
        rintro _ _ ⟨hkind⟩
        exact ⟨_, _, rfl, hkind⟩
      exact (sound_typeList depth).advances (fun _ h => by simpa using hstart.commaSeparated _ _ h)
        hyields
  | argument => exact (sound_argumentRule depth).advances (fun _ h => by cases h) hyields
  | argumentList => exact (sound_argumentList depth).advances (fun _ h => by cases h) hyields
  | methodStub =>
      exact (sound_methodStub depth).advances (fun _ h => by simpa using h.head) hyields
  | member => exact (sound_member depth).advances (fun _ h => by simpa using h.head) hyields
  | classDeclaration =>
      exact (sound_classDeclaration depth).advances (fun _ h => by simp at h) hyields
  | interfaceDeclaration =>
      exact (sound_interfaceDeclaration depth).advances (fun _ h => by simp at h) hyields

/-- At the end of the text there is nothing to take, so such a rule fails. -/
theorem read_of_atEnd {rule : Rule α} (hrule : rule.TakesTokens) (hend : stream.atEnd) :
    ∃ failure, (bounded digits depth).read enclosing rule stream = .error failure stream := by
  have hleads := forward_read digits depth enclosing rule stream
  rcases hleads.eq_of_atEnd hend with ⟨value, hyields⟩ | hfails
  · rw [(advances_read hrule hyields).atEnd_eq] at hend
    exact absurd hend Bool.false_ne_true
  · exact hfails

/-! ## Repetitions -/

/-- The repetitions in the rules of a level: the declarations of a program, the members of a class,
the stubs of an interface, the statements of a block, what follows behind commas in a list of types,
of arguments and of expressions, the operators between operands, the members of an owner, and the
operators behind an operand. Each comes with its round and with what the first round starts from. -/
inductive Repeats (level : Level) :
    {α : Type} → Parser α → (α → Parser (Option α)) → α → Prop
  | declarations (enclosing : Option String) :
      level.Repeats (level.declarations enclosing)
        (collect do
          if ← isAt .endOfText then return none else some <$> level.topLevel enclosing) []
  | members (name : String) :
      level.Repeats (manyUntil (.symbol .braceClose) (level.read (some name) .member))
        (collect (unlessClosed (.symbol .braceClose) (level.read (some name) .member))) []
  | stubs (enclosing : Option String) :
      level.Repeats (manyUntil (.symbol .braceClose) (level.read enclosing .methodStub))
        (collect (unlessClosed (.symbol .braceClose) (level.read enclosing .methodStub))) []
  | statements (enclosing : Option String) :
      level.Repeats (manyUntil (.symbol .braceClose) (level.read enclosing .statement))
        (collect (unlessClosed (.symbol .braceClose) (level.read enclosing .statement))) []
  | types :
      level.Repeats (many (afterComma expectTypename)) (collect (afterComma expectTypename)) []
  | arguments (enclosing : Option String) :
      level.Repeats (many (afterComma (level.read enclosing .argument)))
        (collect (afterComma (level.read enclosing .argument))) []
  | expressions (enclosing : Option String) :
      level.Repeats (many (afterComma (level.read enclosing (.expression none))))
        (collect (afterComma (level.read enclosing (.expression none)))) []
  | operators (enclosing : Option String) (least : Nat) (left : Expr Token) :
      level.Repeats (iterate (level.joinBinary enclosing least) left)
        (level.joinBinary enclosing least) left
  | accesses (enclosing : Option String) (owner : Expr Token) :
      level.Repeats (iterate (level.accessMember enclosing) owner)
        (level.accessMember enclosing) owner
  | trailing (operand : Expr Token) :
      level.Repeats (iterate applyTrailing operand) applyTrailing operand

variable {loop : Parser α} {round : α → Parser (Option α)} {first : α}

theorem Repeats.eq_iterate {level : Level} (hrepeats : level.Repeats loop round first) :
    loop = iterate round first := by
  cases hrepeats with
  | operators | accesses | trailing => rfl
  | _ => exact many_eq_iterate _

/-- A round of a repetition that goes on has taken at least one token. -/
theorem Repeats.advances {value extended : α}
    (hrepeats : (bounded digits depth).Repeats loop round first)
    (hround : Yields (round value) stream (some extended) next) : stream.Advances next := by
  cases hrepeats with
  | declarations enclosing =>
      obtain ⟨decl, hstep⟩ := collect_eq_some hround
      have hcases := yields_topLevelStep.mp hstep
      split at hcases
      next => simp at hcases
      next =>
        obtain ⟨decl', hdecl, _⟩ := hcases
        exact sound_topLevel.advances (fun _ h => by simpa using h.head) hdecl
  | members | stubs | statements =>
      obtain ⟨value, hstep⟩ := collect_eq_some hround
      exact advances_unlessClosed (by simp)
        (fun _ _ hitem => advances_read (by constructor) hitem) hstep
  | types =>
      obtain ⟨value, hstep⟩ := collect_eq_some hround
      exact advances_afterComma (inherited_forward.expectTypename).2 hstep
  | arguments | expressions =>
      obtain ⟨value, hstep⟩ := collect_eq_some hround
      exact advances_afterComma (forward_read digits depth _ _) hstep
  | operators =>
      obtain ⟨_, hnone, _⟩ | ⟨_, _, _, _, middle, hhands, right, hright, _⟩ :=
        yields_joinBinary.mp hround
      · cases hnone
      · obtain ⟨tokens, hpasses⟩ := (forward_read digits depth _ _).passes hright
        exact hhands.advances_of_passes hpasses
  | accesses =>
      obtain ⟨_, hnone, _⟩ | ⟨dot, _, s₁, hhands, name, _, s₂, hhands', hmember⟩ :=
        yields_accessMember.mp hround
      · cases hnone
      split at hmember
      next =>
        obtain ⟨arguments, harguments, _⟩ := hmember
        obtain ⟨tokens, hpasses⟩ := (forward_read digits depth _ _).passes harguments
        exact hhands.advances_of_passes (.cons hhands' hpasses)
      next =>
        obtain ⟨_, rfl⟩ := hmember
        exact hhands.advances_of_passes (.single hhands')
  | trailing =>
      obtain ⟨_, hnone, _⟩ | ⟨token, operator, _, _, hhands, _⟩ := yields_applyTrailing.mp hround
      · cases hnone
      · exact Passes.advances (.single hhands)

theorem Repeats.shortens (hrepeats : (bounded digits depth).Repeats loop round first) :
    Shortens round :=
  fun _ _ _ _ hround => (hrepeats.advances hround).remaining_lt

/-- How reading by the rules of a level goes forward. -/
structure GoesForward (level : Level) : Prop where
  /-- A rule that stands for tokens of its own takes at least one of them to yield a value. -/
  advances {α : Type} {rule : Rule α} : rule.TakesTokens → ∀ enclosing stream value next,
    level.read enclosing rule stream = .ok value next → stream.Advances next
  /-- At the end of the text such a rule fails. -/
  fails_atEnd {α : Type} {rule : Rule α} : rule.TakesTokens → ∀ enclosing stream,
    stream.atEnd → ∃ failure, level.read enclosing rule stream = .error failure stream
  /-- A round of a repetition that goes on takes at least one token. -/
  round_advances {α : Type} {loop : Parser α} {round : α → Parser (Option α)} {first : α} :
    level.Repeats loop round first → ∀ value stream extended next,
      round value stream = .ok (some extended) next → stream.Advances next
  /-- A repetition ends with what its rounds come to, and no more of them go on than there are
  tokens ahead. -/
  rounds {α : Type} {loop : Parser α} {round : α → Parser (Option α)} {first : α} :
    level.Repeats loop round first → ∀ stream, ∃ count ≤ stream.ahead.length,
      ∀ count' outcome, Rounds round first stream count' outcome ↔
        count' = count ∧ outcome = loop stream
  /-- Whatever a rule comes to, it comes of handing out tokens. -/
  leads {α : Type} (rule : Rule α) (enclosing : Option String) (stream : TokenStream) :
    stream.LeadsTo (level.read enclosing rule stream)
  /-- The end of the text is not passed: a rule leaves a stream there where it is. -/
  stays {α : Type} (rule : Rule α) (enclosing : Option String) (stream : TokenStream) :
    stream.atEnd → (∃ value, level.read enclosing rule stream = .ok value stream) ∨
      ∃ failure, level.read enclosing rule stream = .error failure stream

/-- **Reading goes forward, however deep the rules may nest.** -/
theorem read_goes_forward (digits : Option Nat) (depth : Nat) :
    (bounded digits depth).GoesForward where
  advances hrule _ _ _ _ hyields := advances_read hrule hyields
  fails_atEnd hrule _ _ hend := read_of_atEnd hrule hend
  round_advances hrepeats _ _ _ _ hround := hrepeats.advances hround
  rounds hrepeats stream := by
    rw [hrepeats.eq_iterate, length_ahead]
    exact rounds_iff hrepeats.shortens _ stream
  leads rule enclosing stream := forward_read digits depth enclosing rule stream
  stays rule enclosing stream hend :=
    (forward_read digits depth enclosing rule stream).eq_of_atEnd hend

/-- Statements of a block that is not closed: the last one breaks off with the text. -/
theorem read_goes_forward_unclosed :
    let source := Source.ofString "demo" "a(1); \x7b b++; \x7d c ="
    let statement := (bounded none 20).read none .statement
    let loop := manyUntil (.symbol .braceClose) statement
    let round := collect (unlessClosed (.symbol .braceClose) statement)
    ∃ start, ofSource source = .ok start ∧
      (∃ tree next, statement start = .ok tree next ∧ start.Advances next) ∧
      (∃ trees next, round [] start = .ok (some trees) next ∧ start.Advances next) ∧
      ∃ failure next, loop start = .error failure next ∧ next.atEnd ∧
        (∃ failure, statement next = .error failure next) ∧
        ∃ count ≤ start.ahead.length, Rounds round [] start count (.error failure next) := by
  intro source statement loop round
  have hforward : (bounded none 20).GoesForward := read_goes_forward none 20
  have hrepeats : (bounded none 20).Repeats loop round [] := .statements none
  have hstatement : (statement.run source).isOk = true := by decide +kernel
  have hround : ((round []).run source).toOption.join.isSome = true := by decide +kernel
  -- The failure of the loop is caught to see where it leaves the stream.
  have hloop : Parser.run (tryCatch (loop *> return false) fun _ => return (← get).atEnd) source =
      .ok true := by decide +kernel
  obtain ⟨start, _, hstart, hcaught⟩ := run_eq_ok_iff.mp hloop
  refine ⟨start, hstart, ?_, ?_, ?_⟩
  · cases hresult : statement.run source with
    | error failure => simp [hresult, Except.isOk, Except.toBool] at hstatement
    | ok tree =>
        obtain ⟨_, next, hstart', hread⟩ := run_eq_ok_iff.mp hresult
        obtain rfl := Except.ok.inj (hstart.symm.trans hstart')
        exact ⟨tree, next, hread, hforward.advances .statement _ _ _ _ hread⟩
  · cases hresult : (round []).run source with
    | error failure => simp [hresult, Except.toOption] at hround
    | ok trees =>
        obtain ⟨_, next, hstart', hread⟩ := run_eq_ok_iff.mp hresult
        obtain rfl := Except.ok.inj (hstart.symm.trans hstart')
        cases trees with
        | none => simp [hresult, Except.toOption] at hround
        | some trees => exact ⟨trees, next, hread, hforward.round_advances hrepeats _ _ _ _ hread⟩
  · obtain ⟨count, hcount, hrounds⟩ := hforward.rounds hrepeats start
    simp only [Yields, tryCatch, tryCatchThe, MonadExceptOf.tryCatch, EStateM.tryCatch,
      SeqRight.seqRight, EStateM.seqRight] at hcaught
    cases hresult : loop start with
    | ok trees next =>
        rw [hresult] at hcaught
        cases hcaught
    | error failure next =>
        rw [hresult] at hcaught
        have hend : next.atEnd := (EStateM.Result.ok.inj hcaught).1
        exact ⟨failure, next, rfl, hend, hforward.fails_atEnd .statement _ _ hend, count, hcount,
          (hrounds _ _).mpr ⟨rfl, hresult.symm⟩⟩

end Level

end ClassLang
