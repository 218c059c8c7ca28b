import ClassLang.Proofs.Reading.ExpressionGrammar
import ClassLang.Proofs.Reading.Locality
import ClassLang.Proofs.Report.Place
import ClassLang.Proofs.Syntax.Misassignment

/-! # Which faulty assignment is reported

Whether a target can be assigned to is asked when the value has been read. Of several assignments
at fault the one is reported whose value is complete first: the first in whose value there is no
other. What stands before it is read as by the grammar, so the proof follows the derivation with
its faults and falls back on what is said of derivations without.
-/

namespace ClassLang

open TokenStream ClassLang.Parser Syntax Filter

/-! ## Parsers that refuse -/

namespace Parser

variable {α β : Type} {parser : Parser α} {stream middle : TokenStream} {value : α}
  {error : GrammarError}

theorem yields_advance_of_hands {token : Token} (hhands : stream.Hands token middle) :
    Yields Parser.advance stream token middle :=
  (yields_advance (hhands.buffered_eq ▸ hhands.kind_ne)).mpr hhands

/-- The parser fails on the stream with the error. -/
def Refuses (parser : Parser α) (stream : TokenStream) (error : GrammarError) : Prop :=
  ∃ last, parser stream = .error (.grammatical error) last

theorem refuses_refuse {cause : GrammarCause} {token : Token} :
    (refuse cause token : Parser α).Refuses stream ⟨cause, token⟩ :=
  ⟨stream, rfl⟩

theorem Refuses.bind {continuation : α → Parser β} (hrefuses : parser.Refuses stream error) :
    (parser >>= continuation).Refuses stream error := by
  obtain ⟨last, herror⟩ := hrefuses
  exact ⟨last, bind_of_error herror⟩

theorem Yields.bind_refuses {continuation : α → Parser β}
    (hyields : Yields parser stream value middle)
    (hrest : (continuation value).Refuses middle error) :
    (parser >>= continuation).Refuses stream error := by
  obtain ⟨last, herror⟩ := hrest
  exact ⟨last, (bind_of_yields hyields).trans herror⟩

theorem Refuses.many {step : Parser (Option α)} (hstep : step.Refuses stream error) :
    (Parser.many step).Refuses stream error := by
  obtain ⟨last, herror⟩ := hstep
  exact ⟨last, by rw [Parser.many, herror]⟩

theorem Refuses.iterate {step : α → Parser (Option α)} (hstep : (step value).Refuses stream error) :
    (Parser.iterate step value).Refuses stream error := by
  obtain ⟨last, herror⟩ := hstep
  exact ⟨last, by rw [Parser.iterate, herror]⟩

/-- A list is refused if it is refused from one of its later items on. -/
theorem refuses_commaSeparated_more {first : α} {comma : Token} {after : TokenStream}
    (hkeeps : ∀ stream value next, Yields parser stream value next →
      next.remaining ≤ stream.remaining)
    (hfirst : Yields parser stream first middle) (hcomma : comma.kind = .symbol .comma)
    (hhands : middle.Hands comma after) (hrest : (commaSeparated parser).Refuses after error) :
    (commaSeparated parser).Refuses stream error := by
  obtain ⟨last, herror⟩ := hrest
  have htake : Yields (take? (.symbol .comma)) middle (some comma) after :=
    (yields_take? (by simp)).mpr (.inr ⟨comma, rfl, hcomma, hhands⟩)
  refine hfirst.bind_refuses (Refuses.bind ?_)
  cases hitem : parser after with
  | error failure next =>
      obtain ⟨rfl, rfl⟩ := EStateM.Result.error.inj ((bind_of_error hitem).symm.trans herror)
      refine Refuses.many (htake.bind_refuses ?_)
      exact ⟨next, by simp [map_apply, hitem]⟩
  | ok value next =>
      have hstep := yields_afterComma.mpr (.inr ⟨comma, hcomma, after, hhands, value, hitem, rfl⟩)
      have hprogress := Nat.lt_of_le_of_lt (hkeeps _ _ _ hitem) hhands.remaining_lt
      rw [commaSeparated, bind_of_yields hitem] at herror
      rw [Refuses, many_of_yields hstep hprogress, map_eq_pure_bind]
      exact ⟨last, herror⟩

/-- The parser refuses these tokens wherever the token after them may follow. -/
def RefusesFront (parser : Parser α) (tokens : List Token) (follow : Token → Prop)
    (error : GrammarError) : Prop :=
  ∀ stream next, stream.Passes tokens next → follow next.buffered → parser.Refuses stream error

end Parser

namespace Level

/-- The level refuses the phrase from these tokens. -/
def Rejects (level : Level) (enclosing : Option String) (error : GrammarError)
    (tokens : List Token) : Phrase → Prop
  | .assignment _ =>
      (level.read enclosing (.assignment none)).RefusesFront tokens (·.tightness < 1) error
  | .conditional _ =>
      (level.read enclosing (.conditional none)).RefusesFront tokens (·.tightness < 2) error
  | .binary precedence _ => ∀ least ≤ precedence,
      (level.read enclosing (.binary least none)).RefusesFront tokens
        (·.tightness < precedence + 3) error
  | .unary _ => (level.read enclosing .unary).RefusesFront tokens (·.tightness < 10) error
  | .suffixed _ =>
      (level.read enclosing (.suffixed none)).RefusesFront tokens (·.tightness < 11) error
  | .member _ =>
      (level.read enclosing (.suffixed none)).RefusesFront tokens (·.tightness < 12) error
  | .primary _ => (level.read enclosing .primary).RefusesFront tokens (·.tightness < 12) error
  | .arguments _ => (level.read enclosing .expressionList).RefusesFront tokens (fun _ => True) error
  | .list _ =>
      (commaSeparated (level.read enclosing (.assignment none))).RefusesFront tokens
        (·.kind = .symbol .parenClose) error

variable {digits : Option Nat} {depth : Nat} {enclosing : Option String} {error : GrammarError}
  {stream middle next : TokenStream} {tree : Expr Token} {ts us vs : List Token}

/-- Arguments with faults begin with a parenthesis, too. -/
theorem shows_parenOpen_but {trees : List (Expr Token)} {faults : List Fault}
    (harguments : DerivesBut enclosing (.arguments trees) us faults) (hus : stream.Passes us next) :
    stream.buffered.kind = .symbol .parenOpen := by
  cases harguments with
  | faultless hderives => exact Covers.shows_parenOpen hderives hus
  | someArguments hopening => rwa [hus.buffered_eq]

namespace Rejects

theorem ofConditional
    (htree : (bounded digits depth).Rejects enclosing error ts (.conditional tree)) :
    (bounded digits (depth + 1)).Rejects enclosing error ts (.assignment tree) := by
  intro stream next hpasses htight
  exact (htree _ _ hpasses (by omega)).bind

theorem assignTarget {target : Expr Token} {operator : Token} {symbol : Symbol}
    (htarget : (bounded digits depth).Rejects enclosing error ts (.conditional target))
    (hkind : operator.kind = .symbol symbol) (hmem : symbol ∈ Symbol.assignments) :
    (bounded digits (depth + 1)).Rejects enclosing error (ts ++ operator :: us)
      (.assignment tree) := by
  intro stream next hpasses htight
  obtain ⟨middle, hts, _, hhands, _⟩ := Passes.append_cons_iff.mp hpasses
  have hfollow := hhands.tightness_lt_of_assignment hkind hmem
  exact (htarget _ _ hts hfollow).bind

/-- Behind a target and its operator everything depends on the value. -/
theorem behindOperator {target : Expr Token} {operator : Token} {symbol : Symbol}
    (htarget : (bounded digits depth).Covers enclosing ts (.conditional target))
    (hkind : operator.kind = .symbol symbol) (hmem : symbol ∈ Symbol.assignments)
    (hvalue : ∀ stream next, stream.Passes us next → next.buffered.tightness < 1 →
      (do
        let value ← (bounded digits depth).read enclosing (.assignment none)
        match target.assigned? symbol value with
        | some expression => return expression
        | none => refuse .invalidAssignmentTarget operator : Parser (Expr Token)).Refuses stream
          error) :
    (bounded digits (depth + 1)).Rejects enclosing error (ts ++ operator :: us)
      (.assignment tree) := by
  intro stream next hpasses htight
  obtain ⟨middle, hts, after, hhands, hus⟩ := Passes.append_cons_iff.mp hpasses
  have hfollow := hhands.tightness_lt_of_assignment hkind hmem
  have htake : Yields (takeSymbol? Symbol.assignments) middle (some (operator, symbol)) after :=
    yields_takeSymbol?.mpr (.inr ⟨operator, symbol, rfl, hkind, hmem, hhands⟩)
  exact (htarget _ _ hts hfollow).bind_refuses (htake.bind_refuses (hvalue _ _ hus htight))

theorem assignValue {target value : Expr Token} {operator : Token} {symbol : Symbol}
    (htarget : (bounded digits depth).Covers enclosing ts (.conditional target))
    (hkind : operator.kind = .symbol symbol) (hmem : symbol ∈ Symbol.assignments)
    (hvalue : (bounded digits depth).Rejects enclosing error us (.assignment value)) :
    (bounded digits (depth + 1)).Rejects enclosing error (ts ++ operator :: us)
      (.assignment tree) :=
  behindOperator htarget hkind hmem fun _ _ hus htight => (hvalue _ _ hus htight).bind

/-- When the value has been read, a target that is none is refused. -/
theorem misassign {target value : Expr Token} {operator : Token} {symbol : Symbol}
    (hillegal : ¬ IsTarget target)
    (htarget : (bounded digits depth).Covers enclosing ts (.conditional target))
    (hkind : operator.kind = .symbol symbol) (hmem : symbol ∈ Symbol.assignments)
    (hvalue : (bounded digits depth).Covers enclosing us (.assignment value)) :
    (bounded digits (depth + 1)).Rejects enclosing ⟨.invalidAssignmentTarget, operator⟩
      (ts ++ operator :: us) (.assignment tree) := by
  refine behindOperator htarget hkind hmem fun stream next hus htight => ?_
  have hnone : target.assigned? symbol value = none :=
    Option.eq_none_iff_forall_not_mem.mpr fun _ hassigned =>
      hillegal (IsTarget.of_assigned? hassigned)
  refine (hvalue _ _ hus htight).bind_refuses ?_
  rw [hnone]
  exact refuses_refuse

theorem ofBinary (htree : (bounded digits depth).Rejects enclosing error ts (.binary 1 tree)) :
    (bounded digits (depth + 1)).Rejects enclosing error ts (.conditional tree) := by
  intro stream next hpasses htight
  exact (htree 1 le_rfl _ _ hpasses (by omega)).bind

theorem choiceCondition {condition : Expr Token} {question : Token}
    (hcondition : (bounded digits depth).Rejects enclosing error ts (.binary 1 condition))
    (hquestion : question.kind = .symbol .question) :
    (bounded digits (depth + 1)).Rejects enclosing error (ts ++ question :: us)
      (.conditional tree) := by
  intro stream next hpasses htight
  obtain ⟨middle, hts, hrest⟩ := Passes.append_iff.mp hpasses
  have hfollow : middle.buffered.tightness = 2 := by
    rw [hrest.buffered_eq, Token.tightness, hquestion]
  exact (hcondition 1 le_rfl _ _ hts (by omega)).bind

/-- Behind a condition and its question mark everything depends on the two cases. -/
theorem behindQuestion {condition : Expr Token} {question : Token}
    (hcondition : (bounded digits (depth + 1)).Covers enclosing ts (.binary 1 condition))
    (hquestion : question.kind = .symbol .question)
    (hcases : ∀ stream next, stream.Passes us next → next.buffered.tightness < 2 →
      (do
        let holds ← (bounded digits (depth + 1)).read enclosing (.expression none)
        let _ ← expectSymbol .colon
        let fails ← (bounded digits (depth + 1)).read enclosing (.conditional none)
        return .operator condition.tag .conditional [condition, holds, fails]
        : Parser (Expr Token)).Refuses stream error) :
    (bounded digits (depth + 2)).Rejects enclosing error (ts ++ question :: us)
      (.conditional tree) := by
  intro stream next hpasses htight
  obtain ⟨middle, hts, after, hhands, hus⟩ := Passes.append_cons_iff.mp hpasses
  have hfollow : middle.buffered.tightness = 2 := by
    rw [hhands.buffered_eq, Token.tightness, hquestion]
  have hread := (hcondition 1 le_rfl).yields hts (by omega) (yields_binary_stop le_rfl (by omega))
  have htake : Yields (take? (.symbol .question)) middle (some question) after :=
    (yields_take? (by simp)).mpr (.inr ⟨question, rfl, hquestion, hhands⟩)
  exact hread.bind_refuses (htake.bind_refuses (hcases _ _ hus htight))

theorem choiceHolds {condition holds : Expr Token} {question colon : Token}
    (hcondition : (bounded digits (depth + 1)).Covers enclosing ts (.binary 1 condition))
    (hquestion : question.kind = .symbol .question)
    (hholds : (bounded digits depth).Rejects enclosing error us (.assignment holds))
    (hcolon : colon.kind = .symbol .colon) :
    (bounded digits (depth + 2)).Rejects enclosing error (ts ++ question :: (us ++ colon :: vs))
      (.conditional tree) := by
  refine behindQuestion hcondition hquestion fun stream next hpasses _ => ?_
  obtain ⟨middle, hus, _, hhands, _⟩ := Passes.append_cons_iff.mp hpasses
  have hfollow := hhands.tightness_lt_of_mark hcolon (by decide)
  exact Refuses.bind (hholds _ _ hus (by omega))

theorem choiceFails {condition holds fails : Expr Token} {question colon : Token}
    (hcondition : (bounded digits (depth + 1)).Covers enclosing ts (.binary 1 condition))
    (hquestion : question.kind = .symbol .question)
    (hholds : (bounded digits depth).Covers enclosing us (.assignment holds))
    (hcolon : colon.kind = .symbol .colon)
    (hfails : (bounded digits (depth + 1)).Rejects enclosing error vs (.conditional fails)) :
    (bounded digits (depth + 2)).Rejects enclosing error (ts ++ question :: (us ++ colon :: vs))
      (.conditional tree) := by
  refine behindQuestion hcondition hquestion fun stream next hpasses htight => ?_
  obtain ⟨middle, hus, after, hhands, hvs⟩ := Passes.append_cons_iff.mp hpasses
  have hfollow := hhands.tightness_lt_of_mark hcolon (by decide)
  have hread : Yields ((bounded digits (depth + 1)).read enclosing (.expression none)) stream holds
      middle := hholds _ _ hus (by omega)
  have hexpect : Yields (expectSymbol .colon) middle colon after :=
    yields_expectSymbol.mpr ⟨hcolon, hhands⟩
  exact hread.bind_refuses (hexpect.bind_refuses (hfails _ _ hvs htight).bind)

theorem ofTighter {level : Level} {precedence : Nat}
    (htree : level.Rejects enclosing error ts (.binary (precedence + 1) tree)) :
    level.Rejects enclosing error ts (.binary precedence tree) := by
  intro least hleast stream next hpasses htight
  exact htree least (by omega) _ _ hpasses (by omega)

theorem ofUnary (htree : (bounded digits depth).Rejects enclosing error ts (.unary tree)) :
    (bounded digits (depth + 1)).Rejects enclosing error ts (.binary 7 tree) := by
  intro least hleast stream next hpasses htight
  exact (htree _ _ hpasses htight).bind

theorem joinLeft {level : Level} {left : Expr Token} {operator : Token} {symbol : Symbol}
    {precedence : Nat}
    (hleft : level.Rejects enclosing error ts (.binary precedence left))
    (hkind : operator.kind = .symbol symbol) (hmem : symbol ∈ binaryOperators precedence) :
    level.Rejects enclosing error (ts ++ operator :: us) (.binary precedence tree) := by
  intro least hleast stream next hpasses htight
  obtain ⟨middle, hts, _, hhands, _⟩ := Passes.append_cons_iff.mp hpasses
  have hfollow := Token.tightness_of_binary? (hhands.binary?_buffered hkind hmem)
  exact hleft least hleast _ _ hts (by omega)

theorem joinRight {left right : Expr Token} {operator : Token} {symbol : Symbol}
    {precedence : Nat}
    (hleft : (bounded digits (depth + 1)).Covers enclosing ts (.binary precedence left))
    (hkind : operator.kind = .symbol symbol) (hmem : symbol ∈ binaryOperators precedence)
    (hright : (bounded digits depth).Rejects enclosing error us (.binary (precedence + 1) right)) :
    (bounded digits (depth + 1)).Rejects enclosing error (ts ++ operator :: us)
      (.binary precedence tree) := by
  intro least hleast stream next hpasses htight
  obtain ⟨middle, hts, after, hhands, hus⟩ := Passes.append_cons_iff.mp hpasses
  have hbinary := hhands.binary?_buffered hkind hmem
  have hfollow := Token.tightness_of_binary? hbinary
  have hjoin : ((bounded digits depth).joinBinary enclosing least left).Refuses middle error := by
    refine Yields.bind_refuses (yields_peek.mpr ⟨rfl, rfl⟩) ?_
    simp only [Token.precedence, hbinary, Option.elim_some, if_neg (Nat.not_lt.mpr hleast)]
    exact (yields_advance_of_hands hhands).bind_refuses (hright _ le_rfl _ _ hus (by omega)).bind
  rw [Refuses, hleft least hleast _ _ hts (by omega)]
  exact hjoin.iterate

theorem leading {operand : Expr Token} {operator : Token} {symbol : Symbol}
    (hkind : operator.kind = .symbol symbol) (hmem : symbol ∈ Symbol.leading)
    (hoperand : (bounded digits depth).Rejects enclosing error ts (.unary operand)) :
    (bounded digits (depth + 1)).Rejects enclosing error (operator :: ts) (.unary tree) := by
  intro stream next hpasses htight
  obtain ⟨middle, hhands, hts⟩ := Passes.cons_iff.mp hpasses
  have htake : Yields (takeSymbol? Symbol.leading) stream (some (operator, symbol)) middle :=
    yields_takeSymbol?.mpr (.inr ⟨operator, symbol, rfl, hkind, hmem, hhands⟩)
  exact htake.bind_refuses (hoperand _ _ hts htight).bind

theorem ofSuffixed (hstart : ∃ token rest, ts = token :: rest ∧ token.kind ∈ operandStarts)
    (htree : (bounded digits depth).Rejects enclosing error ts (.suffixed tree)) :
    (bounded digits (depth + 1)).Rejects enclosing error ts (.unary tree) := by
  intro stream next hpasses htight
  obtain ⟨token, rest, rfl, hoperand⟩ := hstart
  have hnone : Yields (takeSymbol? Symbol.leading) stream none stream := by
    refine yields_takeSymbol?.mpr (.inl ⟨rfl, rfl, fun operator hmem hkind => ?_⟩)
    rw [hpasses.buffered_eq] at hkind
    rw [hkind] at hoperand
    cases operator <;> simp [Symbol.leading, operandStarts] at hmem hoperand
  exact hnone.bind_refuses (htree _ _ hpasses (by omega))

theorem trailing {level : Level} {operand : Expr Token} {operator : Token} {symbol : Symbol}
    (hoperand : level.Rejects enclosing error ts (.suffixed operand))
    (hkind : operator.kind = .symbol symbol) (hmem : symbol ∈ [Symbol.increment, .decrement]) :
    level.Rejects enclosing error (ts ++ [operator]) (.suffixed tree) := by
  intro stream next hpasses htight
  obtain ⟨middle, hts, hrest⟩ := Passes.append_iff.mp hpasses
  have hfollow : middle.buffered.tightness = 10 := by
    rw [hrest.buffered_eq, Token.tightness, hkind]
    cases symbol <;> simp_all
  exact hoperand _ _ hts (by omega)

theorem ofMember {level : Level} (htree : level.Rejects enclosing error ts (.member tree)) :
    level.Rejects enclosing error ts (.suffixed tree) := by
  intro stream next hpasses htight
  exact htree _ _ hpasses (by omega)

theorem owner {level : Level} {owner : Expr Token} {dot : Token}
    (howner : level.Rejects enclosing error ts (.member owner))
    (hdot : dot.kind = .symbol .dot) :
    level.Rejects enclosing error (ts ++ dot :: us) (.member tree) := by
  intro stream next hpasses htight
  obtain ⟨middle, hts, hrest⟩ := Passes.append_iff.mp hpasses
  have hfollow : middle.buffered.tightness = 11 := by
    rw [hrest.buffered_eq, Token.tightness, hdot]
  exact howner _ _ hts (by omega)

/-- Where a parenthesis shows, arguments are read. -/
theorem behindName {α : Type} {level : Level} {trees : List (Expr Token)} {faults : List Fault}
    {build : List (Expr Token) → α} {other : Parser α}
    (hbut : DerivesBut enclosing (.arguments trees) ts faults)
    (htrees : level.Rejects enclosing error ts (.arguments trees))
    (hpasses : stream.Passes ts next) :
    (do if ← isAt (.symbol .parenOpen) then
          return build (← level.read enclosing .expressionList)
        else other : Parser α).Refuses stream error := by
  have hshown : Yields (isAt (.symbol .parenOpen)) stream true stream :=
    yields_isAt.mpr ⟨(decide_eq_true (shows_parenOpen_but hbut hpasses)).symm, rfl⟩
  exact hshown.bind_refuses (htrees _ _ hpasses trivial).bind

theorem callArguments {owner : Expr Token} {dot name : Token} {trees : List (Expr Token)}
    {faults : List Fault}
    (howner : (bounded digits (depth + 2)).Covers enclosing ts (.member owner))
    (hdot : dot.kind = .symbol .dot) (hname : name.kind = .name)
    (hbut : DerivesBut enclosing (.arguments trees) us faults)
    (htrees : (bounded digits depth).Rejects enclosing error us (.arguments trees)) :
    (bounded digits (depth + 2)).Rejects enclosing error (ts ++ dot :: name :: us)
      (.member tree) := by
  intro stream next hpasses htight
  obtain ⟨middle, hts, s₁, hhands, hrest⟩ := Passes.append_cons_iff.mp hpasses
  obtain ⟨s₂, hhands', hus⟩ := Passes.cons_iff.mp hrest
  have hfollow : middle.buffered.tightness = 11 := by
    rw [hhands.buffered_eq, Token.tightness, hdot]
  have htake : Yields (take? (.symbol .dot)) middle (some dot) s₁ :=
    (yields_take? (by simp)).mpr (.inr ⟨dot, rfl, hdot, hhands⟩)
  have hexpect : Yields expectName s₁ name.payload s₂ :=
    (yields_expectPayload (by simp)).mpr ⟨name, hname, rfl, hhands'⟩
  have haccess : ((bounded digits depth).accessMember enclosing owner).Refuses middle error :=
    htake.bind_refuses (hexpect.bind_refuses (behindName hbut htrees hus))
  have hmembers : ((bounded digits (depth + 1)).read enclosing (.memberAccess owner)).Refuses middle
      error := haccess.iterate
  rw [Refuses, howner _ _ hts (by omega), bounded_succ_read, apply, suffixed_some]
  exact hmembers.bind

theorem ofPrimary (htree : (bounded digits depth).Rejects enclosing error ts (.primary tree)) :
    (bounded digits (depth + 1)).Rejects enclosing error ts (.member tree) := by
  intro stream next hpasses htight
  exact (htree _ _ hpasses htight).bind

theorem parenthesized {opening closing : Token} (hopening : opening.kind = .symbol .parenOpen)
    (htree : (bounded digits depth).Rejects enclosing error ts (.assignment tree))
    (hclosing : closing.kind = .symbol .parenClose) :
    (bounded digits (depth + 2)).Rejects enclosing error (opening :: ts ++ [closing])
      (.primary tree) := by
  intro stream next hpasses htight
  obtain ⟨middle, hhands, hback⟩ := Passes.cons_iff.mp hpasses
  obtain ⟨inner, hts, hrest⟩ := Passes.append_iff.mp hback
  have hhands' := Passes.singleton_iff.mp hrest
  have hfollow := hhands'.tightness_lt_of_mark hclosing (by decide)
  have hinner : ((bounded digits (depth + 1)).read enclosing (.expression none)).Refuses middle
      error := htree _ _ hts (by omega)
  refine Yields.bind_refuses (yields_peek.mpr ⟨rfl, rfl⟩) ?_
  simp only [hhands.buffered_eq, hopening]
  exact (yields_advance_of_hands hhands).bind_refuses hinner.bind

theorem staticCall {type dot name : Token} {trees : List (Expr Token)} {faults : List Fault}
    (htype : type.kind = .typename) (hdot : dot.kind = .symbol .dot) (hname : name.kind = .name)
    (hbut : DerivesBut enclosing (.arguments trees) ts faults)
    (htrees : (bounded digits depth).Rejects enclosing error ts (.arguments trees)) :
    (bounded digits (depth + 2)).Rejects enclosing error (type :: dot :: name :: ts)
      (.primary tree) := by
  intro stream next hpasses htight
  obtain ⟨s₁, hhands, hrest⟩ := Passes.cons_iff.mp hpasses
  obtain ⟨s₂, hhands₁, hrest⟩ := Passes.cons_iff.mp hrest
  obtain ⟨s₃, hhands₂, hts⟩ := Passes.cons_iff.mp hrest
  have hdots : Yields (expectSymbol .dot) s₁ dot s₂ := yields_expectSymbol.mpr ⟨hdot, hhands₁⟩
  have hexpect : Yields expectName s₂ name.payload s₃ :=
    (yields_expectPayload (by simp)).mpr ⟨name, hname, rfl, hhands₂⟩
  have hmember : ((bounded digits (depth + 1)).read enclosing (.staticMember type)).Refuses s₁
      error := hdots.bind_refuses (hexpect.bind_refuses (behindName hbut htrees hts))
  refine Yields.bind_refuses (yields_peek.mpr ⟨rfl, rfl⟩) ?_
  simp only [hhands.buffered_eq, htype]
  exact (yields_advance_of_hands hhands).bind_refuses hmember

/-- What begins with a name is read on behind the name. -/
theorem ofNamed {name : Token} (hname : name.kind = .name)
    (hnamed : ∀ stream next, stream.Passes ts next →
      ((bounded digits depth).named enclosing name).Refuses stream error) :
    (bounded digits (depth + 1)).Rejects enclosing error (name :: ts) (.primary tree) := by
  intro stream next hpasses htight
  obtain ⟨middle, hhands, hts⟩ := Passes.cons_iff.mp hpasses
  refine Yields.bind_refuses (yields_peek.mpr ⟨rfl, rfl⟩) ?_
  simp only [hhands.buffered_eq, hname]
  exact (yields_advance_of_hands hhands).bind_refuses (hnamed _ _ hts)

theorem new {word type : Token} {trees : List (Expr Token)} (hword : word.kind = .name)
    (hnew : word.data = some "new") (htype : type.kind = .typename)
    (htrees : (bounded digits depth).Rejects enclosing error ts (.arguments trees)) :
    (bounded digits (depth + 1)).Rejects enclosing error (word :: type :: ts) (.primary tree) := by
  refine ofNamed hword fun stream next hpasses => ?_
  obtain ⟨middle, hhands, hts⟩ := Passes.cons_iff.mp hpasses
  have hshown : Yields (isAt .typename) stream true stream :=
    yields_isAt.mpr ⟨(decide_eq_true (hhands.buffered_eq ▸ htype)).symm, rfl⟩
  have hexpect : Yields expectTypename stream type.payload middle :=
    yields_expectTypename.mpr ⟨type, htype, rfl, hhands⟩
  rw [named, if_pos hnew]
  exact hshown.bind_refuses (hexpect.bind_refuses (htrees _ _ hts trivial).bind)

theorem ownCall {name : Token} {trees : List (Expr Token)} {faults : List Fault}
    (hname : name.kind = .name) (hbut : DerivesBut enclosing (.arguments trees) ts faults)
    (htrees : (bounded digits depth).Rejects enclosing error ts (.arguments trees)) :
    (bounded digits (depth + 1)).Rejects enclosing error (name :: ts) (.primary tree) := by
  refine ofNamed hname fun stream next hpasses => ?_
  have hparen := shows_parenOpen_but hbut hpasses
  have hother : Yields (isAt .typename) stream false stream :=
    yields_isAt.mpr ⟨(decide_eq_false (by simp [hparen])).symm, rfl⟩
  have hcall : ((bounded digits depth).callOrName enclosing name).Refuses stream error :=
    behindName hbut htrees hpasses
  rw [named]
  split
  · exact hother.bind_refuses hcall
  · exact hcall

theorem arguments {trees : List (Expr Token)} {opening closing : Token} {faults : List Fault}
    (hopening : opening.kind = .symbol .parenOpen)
    (hbut : DerivesBut enclosing (.list trees) ts faults)
    (htrees : (bounded digits depth).Rejects enclosing error ts (.list trees))
    (hclosing : closing.kind = .symbol .parenClose) :
    (bounded digits (depth + 2)).Rejects enclosing error (opening :: ts ++ [closing])
      (.arguments trees) := by
  intro stream next hpasses _
  obtain ⟨middle, hhands, hback⟩ := Passes.cons_iff.mp hpasses
  obtain ⟨inner, hts, hrest⟩ := Passes.append_iff.mp hback
  have hexpect : Yields (expectSymbol .parenOpen) stream opening middle :=
    yields_expectSymbol.mpr ⟨hopening, hhands⟩
  have hnone : Yields (take? (.symbol .parenClose)) middle none middle := by
    refine (yields_take? (by simp)).mpr (.inl ⟨rfl, rfl, fun hkind => ?_⟩)
    obtain ⟨token, rest, rfl, hstart⟩ := hbut.head
    rw [hts.buffered_eq] at hkind
    simp [hkind, Phrase.starts, expressionStarts, operandStarts] at hstart
  have hlist : (commaSeparated ((bounded digits (depth + 1)).read enclosing
      (.expression none))).Refuses middle error := htrees _ _ hts (hrest.buffered_eq ▸ hclosing)
  exact hexpect.bind_refuses (hnone.bind_refuses hlist.bind)

theorem single {level : Level}
    (htree : level.Rejects enclosing error ts (.assignment tree)) :
    level.Rejects enclosing error ts (.list [tree]) := by
  intro stream next hpasses hclose
  exact (htree _ _ hpasses (Token.tightness_lt_of_mark hclose (by decide))).bind

theorem moreFirst {level : Level} {comma : Token} {trees : List (Expr Token)}
    (htree : level.Rejects enclosing error ts (.assignment tree))
    (hcomma : comma.kind = .symbol .comma) :
    level.Rejects enclosing error (ts ++ comma :: us) (.list trees) := by
  intro stream next hpasses _
  obtain ⟨middle, hts, _, hhands, _⟩ := Passes.append_cons_iff.mp hpasses
  have hfollow := hhands.tightness_lt_of_mark hcomma (by decide)
  exact (htree _ _ hts (by omega)).bind

theorem moreRest {comma : Token} {trees rest : List (Expr Token)}
    (htree : (bounded digits depth).Covers enclosing ts (.assignment tree))
    (hcomma : comma.kind = .symbol .comma)
    (htrees : (bounded digits depth).Rejects enclosing error us (.list trees)) :
    (bounded digits depth).Rejects enclosing error (ts ++ comma :: us) (.list rest) := by
  intro stream next hpasses hclose
  obtain ⟨middle, hts, after, hhands, hus⟩ := Passes.append_cons_iff.mp hpasses
  have hfollow := hhands.tightness_lt_of_mark hcomma (by decide)
  refine refuses_commaSeparated_more ?_ (htree _ _ hts (by omega)) hcomma hhands
    (htrees _ _ hus hclose)
  intro stream value next hvalue
  obtain ⟨_, hvalues, _⟩ := (bounded_soundExpressions _ depth enclosing).assignment _ _ _ hvalue
  exact hvalues.remaining_le

end Rejects

/-! ## Every phrase with faults -/

theorem eventually_covers {phrase : Phrase} (hderives : Derives enclosing phrase ts) :
    ∀ᶠ depth in atTop, (bounded none depth).Covers enclosing ts phrase :=
  covers_of_derives hderives Derives.fits_none

/-- The refusal of the first innermost of the faults. -/
def RejectsFirst (enclosing : Option String) (phrase : Phrase) (ts : List Token)
    (faults : List Fault) : Prop :=
  ∀ fault, firstInnermost? faults = some fault → ∀ᶠ depth in atTop,
    (bounded none depth).Rejects enclosing ⟨.invalidAssignmentTarget, fault.operator⟩ ts phrase

namespace RejectsFirst

variable {before behind faults : List Fault}

/-- A phrase is refused for the faults of its one part, some levels further out. -/
theorem around {phrase phrase' : Phrase} (levels : Nat)
    (hpart : RejectsFirst enclosing phrase ts faults)
    (haround : ∀ depth error, (bounded none depth).Rejects enclosing error ts phrase →
      (bounded none (depth + levels)).Rejects enclosing error us phrase') :
    RejectsFirst enclosing phrase' us faults := by
  intro fault hfirst
  refine eventually_of_further levels ?_
  filter_upwards [hpart fault hfirst] with depth hrejects
  exact haround depth _ hrejects

/-- An assignment that is not at fault itself. -/
theorem assigned {target value : Expr Token} {operator : Token} {symbol : Symbol}
    (hbut : DerivesBut enclosing (.conditional target) ts before)
    (htarget : RejectsFirst enclosing (.conditional target) ts before)
    (hkind : operator.kind = .symbol symbol) (hmem : symbol ∈ Symbol.assignments)
    (hvalue : RejectsFirst enclosing (.assignment value) us behind) :
    RejectsFirst enclosing (.assignment tree) (ts ++ operator :: us) (before ++ behind) := by
  intro fault hfirst
  refine eventually_of_further 1 ?_
  obtain hbefore | ⟨-, hderives, hbehind⟩ := hbut.firstInnermost?_append hfirst
  · filter_upwards [htarget fault hbefore] with depth hrejects
    exact hrejects.assignTarget hkind hmem
  · filter_upwards [eventually_covers hderives, hvalue fault hbehind] with depth hcovers hrejects
    exact hrejects.assignValue hcovers hkind hmem

/-- An assignment that is at fault itself is refused when no other fault comes first. -/
theorem misassigned {target value : Expr Token} {operator : Token} {symbol : Symbol}
    (hillegal : ¬ IsTarget target) (hbut : DerivesBut enclosing (.conditional target) ts before)
    (htarget : RejectsFirst enclosing (.conditional target) ts before)
    (hkind : operator.kind = .symbol symbol) (hmem : symbol ∈ Symbol.assignments)
    (hbut' : DerivesBut enclosing (.assignment value) us behind)
    (hvalue : RejectsFirst enclosing (.assignment value) us behind) :
    RejectsFirst enclosing (.assignment tree) (ts ++ operator :: us)
      (before ++ ⟨operator, behind.isEmpty⟩ :: behind) := by
  intro fault hfirst
  refine eventually_of_further 1 ?_
  obtain hbefore | ⟨-, hderives, hrest⟩ := hbut.firstInnermost?_append hfirst
  · filter_upwards [htarget fault hbefore] with depth hrejects
    exact hrejects.assignTarget hkind hmem
  · cases hbehind : behind with
    | nil =>
        rw [hbehind] at hrest
        obtain rfl := Option.some.inj hrest
        filter_upwards [eventually_covers hderives, eventually_covers (hbut'.derives hbehind)]
          with depth hcovers hcovers'
        exact .misassign hillegal hcovers hkind hmem hcovers'
    | cons other others =>
        rw [hbehind] at hrest hvalue
        filter_upwards [eventually_covers hderives, hvalue fault hrest] with depth hcovers hrejects
        exact hrejects.assignValue hcovers hkind hmem

end RejectsFirst

/-- Every phrase with faults is refused for the first innermost of them. -/
theorem rejectsFirst {phrase : Phrase} {faults : List Fault}
    (hbut : DerivesBut enclosing phrase ts faults) : RejectsFirst enclosing phrase ts faults := by
  induction hbut with
  | faultless => intro fault hfirst; cases hfirst
  | misassign hillegal hbut hkind hmem hbut' ihtarget ihvalue =>
      exact .misassigned hillegal hbut ihtarget hkind hmem hbut' ihvalue
  | assignName hbut hkind _ ihtarget ihvalue | assignField hbut hkind _ ihtarget ihvalue
  | assignStatic hbut hkind _ ihtarget ihvalue =>
      exact .assigned hbut ihtarget hkind (by decide) ihvalue
  | assignCompound _ hbut hkind hmem _ ihtarget ihvalue =>
      exact .assigned hbut ihtarget hkind (List.mem_cons_of_mem _ hmem) ihvalue
  | ofConditional _ ih => exact ih.around 1 fun _ _ htree => htree.ofConditional
  | ofBinary _ ih => exact ih.around 1 fun _ _ htree => htree.ofBinary
  | choice hbut hquestion hbut' hcolon _ ihcondition ihholds ihfails =>
      intro fault hfirst
      refine eventually_of_further 2 ?_
      rw [List.append_assoc, List.cons_append]
      rw [List.append_assoc] at hfirst
      obtain hbefore | ⟨-, hcondition, hfirst⟩ := hbut.firstInnermost?_append hfirst
      · filter_upwards [eventually_further (ihcondition fault hbefore) 1] with depth hrejects
        exact hrejects.choiceCondition hquestion
      obtain hbetween | ⟨-, hholds, hbehind⟩ := hbut'.firstInnermost?_append hfirst
      · filter_upwards [eventually_further (eventually_covers hcondition) 1,
          ihholds fault hbetween] with depth hcovers hrejects
        exact .choiceHolds hcovers hquestion hrejects hcolon
      · filter_upwards [eventually_further (eventually_covers hcondition) 1,
          eventually_covers hholds, eventually_further (ihfails fault hbehind) 1]
          with depth hcovers hcovers' hrejects
        exact .choiceFails hcovers hquestion hcovers' hcolon hrejects
  | ofTighter _ ih => exact ih.around 0 fun _ _ htree => htree.ofTighter
  | join hbut hkind hmem _ ihleft ihright =>
      intro fault hfirst
      obtain hbefore | ⟨-, hleft, hbehind⟩ := hbut.firstInnermost?_append hfirst
      · filter_upwards [ihleft fault hbefore] with depth hrejects
        exact hrejects.joinLeft hkind hmem
      · refine eventually_of_further 1 ?_
        filter_upwards [eventually_further (eventually_covers hleft) 1, ihright fault hbehind]
          with depth hcovers hrejects
        exact hrejects.joinRight hcovers hkind hmem
  | ofUnary _ ih => exact ih.around 1 fun _ _ htree => htree.ofUnary
  | leading hkind hmem _ ih => exact ih.around 1 fun _ _ hoperand => .leading hkind hmem hoperand
  | ofSuffixed hbut ih => exact ih.around 1 fun _ _ htree => htree.ofSuffixed hbut.head
  | trailing _ hkind hmem ih => exact ih.around 0 fun _ _ hoperand => hoperand.trailing hkind hmem
  | ofMember _ ih => exact ih.around 0 fun _ _ htree => htree.ofMember
  | field _ hdot _ ih => exact ih.around 0 fun _ _ howner => howner.owner hdot
  | call hbut hdot hname hbut' ihowner iharguments =>
      intro fault hfirst
      obtain hbefore | ⟨-, howner, hbehind⟩ := hbut.firstInnermost?_append hfirst
      · filter_upwards [ihowner fault hbefore] with depth hrejects
        exact hrejects.owner hdot
      · refine eventually_of_further 2 ?_
        filter_upwards [eventually_further (eventually_covers howner) 2,
          iharguments fault hbehind] with depth hcovers hrejects
        exact .callArguments hcovers hdot hname hbut' hrejects
  | ofPrimary _ ih => exact ih.around 1 fun _ _ htree => htree.ofPrimary
  | parenthesized hopening _ hclosing ih =>
      exact ih.around 2 fun _ _ htree => .parenthesized hopening htree hclosing
  | staticCall htype hdot hname hbut ih =>
      exact ih.around 2 fun _ _ htrees => .staticCall htype hdot hname hbut htrees
  | new hword hnew htype _ ih => exact ih.around 1 fun _ _ htrees => .new hword hnew htype htrees
  | ownCall hname hbut ih => exact ih.around 1 fun _ _ htrees => .ownCall hname hbut htrees
  | someArguments hopening hbut hclosing ih =>
      exact ih.around 2 fun _ _ htrees => .arguments hopening hbut htrees hclosing
  | single _ ih => exact ih.around 0 fun _ _ htree => htree.single
  | more hbut hcomma _ ihfirst ihrest =>
      intro fault hfirst
      obtain hbefore | ⟨-, hderives, hbehind⟩ := hbut.firstInnermost?_append hfirst
      · filter_upwards [ihfirst fault hbefore] with depth hrejects
        exact hrejects.moreFirst hcomma
      · filter_upwards [eventually_covers hderives, ihrest fault hbehind]
          with depth hcovers hrejects
        exact hrejects.moreRest hcovers hcomma

end Level

/-! ## Whole texts -/

namespace Expr

variable {source : Source} {tokens : List Token} {last : Token} {tree : Expr Token}
  {faults : List Fault} {error : GrammarError}

/-- An expression that is refused at every sufficient depth is refused unless a limit is met. -/
theorem read_of_eventually_rejects
    (htokens : TokenStream.tokens source = .ok (tokens ++ [last]))
    (hlimit : ∀ failure, Expr.read source = .error failure → ¬ failure.IsLimit)
    (hrejects : ∀ᶠ depth in atTop,
      (Level.bounded none depth).Rejects none error tokens (.assignment tree)) :
    Expr.read source = .error (.grammatical error) := by
  obtain ⟨start, final, front, hstart, hfront, hfinal, heq⟩ := tokens_eq_ok_iff.mp htokens
  obtain ⟨rfl, -⟩ := List.append_inj' heq rfl
  obtain ⟨depth, hdeep, hle⟩ := (hrejects.and (eventually_ge_atTop nestingLimit)).exists
  have hkind : final.buffered.kind = .endOfText := of_decide_eq_true hfinal
  have hrefuses : ((Level.bounded none (depth + 1)).read none (.expression none)).Refuses start
      error := hdeep _ _ hfront (by simp [Token.tightness, hkind])
  obtain ⟨rest, herror⟩ : (Level.bounded none (depth + 1)).wholeExpression.Refuses start error :=
    hrefuses.bind
  have happrox := (Level.bounded_approximates_none (some Failure.integerDigits) nestingLimit)
    |>.wholeExpression.trans
      ((Level.bounded_approximates (Nat.le_succ_of_le hle)).wholeExpression.mono fun _ => Or.inl)
  rcases happrox.run source with ⟨failure, hfails, hexcused⟩ | heq
  · exact absurd hexcused (hlimit failure hfails)
  · exact heq.trans (run_eq_error hstart herror)

/-- **Of several assignments at fault the first is reported in whose value no other is at fault.**
Where any operand may be assigned to, a text with at least one fault that meets no limit is refused
for it, with the code for invalid targets and about its operator. The operators at fault are listed
as they stand in the text, so that the one reported is the leftmost if, for each of them, the value
that it assigns is without faults. -/
theorem read_refused_at_first_innermost
    (htokens : TokenStream.tokens source = .ok (tokens ++ [last]))
    (hlimit : ∀ failure, Expr.read source = .error failure → ¬ failure.IsLimit)
    (hbut : DerivesBut none (.assignment tree) tokens faults) (hfaults : faults ≠ []) :
    (faults.map (·.operator)).Sublist tokens ∧
      ∃ fault, faults.find? (·.innermost) = some fault ∧
        Expr.read source = .error (.grammatical ⟨.invalidAssignmentTarget, fault.operator⟩) ∧
        ∃ refusal, GrammarError.report ⟨.invalidAssignmentTarget, fault.operator⟩ source =
            .ok refusal ∧
          refusal.diagnostic.code = "KAV2005" ∧
          refusal.tokens.map (·.token) = [fault.operator] := by
  obtain ⟨fault, hfirst⟩ := Option.ne_none_iff_exists'.mp (mt hbut.firstInnermost?_eq_none hfaults)
  have hread := read_of_eventually_rejects htokens hlimit (Level.rejectsFirst hbut fault hfirst)
  refine ⟨hbut.sublist, fault, hfirst, hread, ?_⟩
  exact ⟨_, GrammarError.report_of_pos_le ((arises_of_read_error hread).pos_le rfl), rfl, rfl⟩

/-- Neither the leftmost nor the outermost of three is reported. -/
theorem read_refused_at_first_innermost_argument :
    let source := Source.ofString "main" "f(1 = 2 = 3) = 4"
    let equals (pos : Nat) : Token := ⟨.symbol .assign, none, pos, pos + 1⟩
    let digit (text : String) (pos : Nat) : Token := ⟨.int, some text, pos, pos + 1⟩
    let tokens : List Token :=
      [⟨.name, some "f", 0, 1⟩, ⟨.symbol .parenOpen, none, 1, 2⟩, digit "1" 2, equals 4,
        digit "2" 6, equals 8, digit "3" 10, ⟨.symbol .parenClose, none, 11, 12⟩, equals 13,
        digit "4" 15]
    let faults : List Fault := [⟨equals 4, false⟩, ⟨equals 8, true⟩, ⟨equals 13, true⟩]
    (∃ tree, DerivesBut none (.assignment tree) tokens faults) ∧
      Expr.read source = .error (.grammatical ⟨.invalidAssignmentTarget, equals 8⟩) ∧
      (faults.map (·.operator)).Sublist tokens ∧
      ∃ fault, faults.find? (·.innermost) = some fault ∧
        Expr.read source = .error (.grammatical ⟨.invalidAssignmentTarget, fault.operator⟩) ∧
        ∃ refusal, GrammarError.report ⟨.invalidAssignmentTarget, fault.operator⟩ source =
            .ok refusal ∧
          refusal.diagnostic.code = "KAV2005" ∧
          refusal.tokens.map (·.token) = [fault.operator] := by
  intro source equals digit tokens faults
  have hinner : DerivesBut none (.assignment _)
      [digit "1" 2, equals 4, digit "2" 6, equals 8, digit "3" 10]
      [⟨equals 4, false⟩, ⟨equals 8, true⟩] :=
    .misassignNumber rfl rfl (by decide)
      (.misassignNumber rfl rfl (by decide) (.ofConditional (.number rfl)))
  have hcall : DerivesBut none (.conditional (.callStatic ⟨.name, some "f", 0, 1⟩ none "f" [_]))
      [⟨.name, some "f", 0, 1⟩, ⟨.symbol .parenOpen, none, 1, 2⟩, digit "1" 2, equals 4,
        digit "2" 6, equals 8, digit "3" 10, ⟨.symbol .parenClose, none, 11, 12⟩]
      [⟨equals 4, false⟩, ⟨equals 8, true⟩] :=
    .ofPrimary_conditional (.ownCall rfl (.someArguments rfl (.single hinner) rfl))
  have hillegal (name : Token) (arguments : List (Expr Token)) :
      ¬ IsTarget (.callStatic name none "f" arguments) := nofun
  have hbut : DerivesBut none (.assignment _) tokens faults :=
    .misassign (hillegal _ _) hcall rfl (by decide) (.ofConditional (.number rfl))
  have hread : Expr.read source = .error (.grammatical ⟨.invalidAssignmentTarget, equals 8⟩) := by
    decide +kernel
  have hlimit : ∀ failure, Expr.read source = .error failure → ¬ failure.IsLimit := by
    intro failure herror
    obtain rfl := Except.error.inj (hread.symm.trans herror)
    simp [Failure.IsLimit, Failure.IsNesting]
  exact ⟨⟨_, hbut⟩, hread,
    @read_refused_at_first_innermost source tokens (.endOfText 16) _ _ (by decide +kernel) hlimit
      hbut (by simp [faults])⟩

/-- It is not always the leftmost operator at fault that is reported. -/
theorem not_read_refused_at_leftmost :
    ¬ ∀ (source : Source) (tokens : List Token) (last : Token) (tree : Expr Token) (fault : Fault)
      (faults : List Fault), TokenStream.tokens source = .ok (tokens ++ [last]) →
      (∀ failure, Expr.read source = .error failure → ¬ failure.IsLimit) →
      DerivesBut none (.assignment tree) tokens (fault :: faults) →
      Expr.read source = .error (.grammatical ⟨.invalidAssignmentTarget, fault.operator⟩) := by
  intro hleftmost
  let equals (pos : Nat) : Token := ⟨.symbol .assign, none, pos, pos + 1⟩
  let digit (text : String) (pos : Nat) : Token := ⟨.int, some text, pos, pos + 1⟩
  have hbut : DerivesBut none (.assignment _)
      [digit "1" 0, equals 2, digit "2" 4, equals 6, digit "3" 8]
      [⟨equals 2, false⟩, ⟨equals 6, true⟩] :=
    .misassignNumber rfl rfl (by decide)
      (.misassignNumber rfl rfl (by decide) (.ofConditional (.number rfl)))
  have hread : Expr.read (.ofString "<expression>" "1 = 2 = 3") =
      .error (.grammatical ⟨.invalidAssignmentTarget, equals 6⟩) := by decide +kernel
  have hlimit : ∀ failure, Expr.read (.ofString "<expression>" "1 = 2 = 3") = .error failure →
      ¬ failure.IsLimit := by
    intro failure herror
    obtain rfl := Except.error.inj (hread.symm.trans herror)
    simp [Failure.IsLimit, Failure.IsNesting]
  have hwrong := hleftmost _ _ (.endOfText 9) _ _ _ (by decide +kernel) hlimit hbut
  simp [equals, hread] at hwrong

end Expr

end ClassLang
