import ClassLang.Proofs.Reading.ExpressionRules
import ClassLang.Proofs.Reading.Limits
import ClassLang.Proofs.Reading.Lists
import ClassLang.Proofs.Syntax.Expression

/-! # What is read as an expression is one

Whatever the rules of expressions read, the tokens that have been taken are a
phrase of the grammar with the tree that has been built. The rules of a level
owe this to those one level further in, so the proof is by the nesting depth.
-/

namespace ClassLang

open TokenStream ClassLang.Parser Syntax

namespace Syntax

variable {enclosing : Option String} {ts us : List Token} {target value tree : Expr Token}
  {symbol : Symbol}

/-- Only targets of the grammar are assigned to. -/
theorem IsTarget.of_assigned? (hassigned : target.assigned? symbol value = some tree) :
    IsTarget target := by
  unfold Expr.assigned? at hassigned
  split at hassigned
  case h_1 | h_4 => exact .name ..
  case h_2 | h_5 => exact .get ..
  case h_3 | h_6 => exact .getStatic ..
  case h_7 => simp at hassigned

/-- Any target can be computed with and assigned to. -/
theorem IsTarget.assigned?_compound (htarget : IsTarget target)
    (hsymbol : symbol ∈ compoundAssignments) :
    target.assigned? symbol value =
      some (.operator target.tag (.symbol symbol) [target, value]) := by
  cases htarget <;> cases symbol <;> first | rfl | simp [compoundAssignments] at hsymbol

/-- What an assignment operator between a target and a value makes is a phrase of the grammar. -/
theorem Derives.ofAssigned {operator : Token} (htarget : Derives enclosing (.conditional target) ts)
    (hkind : operator.kind = .symbol symbol) (hmem : symbol ∈ Symbol.assignments)
    (hvalue : Derives enclosing (.assignment value) us)
    (hassigned : target.assigned? symbol value = some tree) :
    Derives enclosing (.assignment tree) (ts ++ operator :: us) := by
  have hlegal := IsTarget.of_assigned? hassigned
  obtain rfl | hcompound : symbol = .assign ∨ symbol ∈ compoundAssignments := by
    simpa [Symbol.assignments, compoundAssignments] using hmem
  · cases hlegal <;> obtain rfl := Option.some.inj hassigned
    · exact .assignName htarget hkind hvalue
    · exact .assignField htarget hkind hvalue
    · exact .assignStatic htarget hkind hvalue
  · rw [hlegal.assigned?_compound hcompound] at hassigned
    obtain rfl := Option.some.inj hassigned
    exact .assignCompound hlegal htarget hkind hcompound hvalue

end Syntax

/-- The binary operator of a token is a symbol of the grammar's table. -/
theorem Token.binary?_eq_some_iff {token : Token} {symbol : Symbol} {precedence : Nat} :
    token.binary? = some (symbol, precedence) ↔
      token.kind = .symbol symbol ∧ symbol ∈ binaryOperators precedence := by
  rw [mem_binaryOperators_iff]
  unfold Token.binary?
  split
  next other hkind =>
    rw [hkind, Kind.symbol.injEq, Option.map_eq_some_iff]
    constructor
    · rintro ⟨found, hfound, heq⟩
      obtain ⟨rfl, rfl⟩ := Prod.mk.inj heq
      exact ⟨rfl, hfound⟩
    · rintro ⟨rfl, hfound⟩
      exact ⟨precedence, hfound, rfl⟩
  next hkind =>
    simp only [reduceCtorEq, false_iff, not_and]
    exact fun hsymbol => absurd hsymbol (hkind symbol)

namespace Level

variable {level : Level} {enclosing : Option String}

/-- No binary operator of at least the precedence comes next. -/
def NoOperator (least : Nat) (stream : TokenStream) : Prop :=
  ∀ operator precedence, stream.buffered.binary? = some (operator, precedence) →
    precedence < least

/-- From precedence one on, a token that is no such operator binds looser. -/
theorem noOperator_iff {least : Nat} {stream : TokenStream} (hleast : 1 ≤ least) :
    NoOperator least stream ↔ stream.buffered.precedence < least := by
  unfold NoOperator Token.precedence
  cases stream.buffered.binary? with
  | none => simpa using Nat.lt_of_succ_le hleast
  | some found => simp [Prod.ext_iff]

/-- What the rules of expressions of a level read are phrases of the grammar. -/
structure SoundExpressions (level : Level) (enclosing : Option String) : Prop where
  expression : Sound (level.read enclosing (.expression none))
    fun ts tree => Derives enclosing (.assignment tree) ts
  assignment : Sound (level.read enclosing (.assignment none))
    fun ts tree => Derives enclosing (.assignment tree) ts
  conditional : Sound (level.read enclosing (.conditional none))
    fun ts tree => Derives enclosing (.conditional tree) ts
  binary {least : Nat} (hleast : least ≤ 7) {stream next : TokenStream} {tree : Expr Token} :
    Yields (level.read enclosing (.binary least none)) stream tree next →
      (∃ ts, stream.Passes ts next ∧ Derives enclosing (.binary least tree) ts) ∧
        NoOperator least next
  unary : Sound (level.read enclosing .unary) fun ts tree => Derives enclosing (.unary tree) ts
  suffixed : Sound (level.read enclosing (.suffixed none))
    fun ts tree => Derives enclosing (.suffixed tree) ts
  memberAccess {owner us} (howner : Derives enclosing (.member owner) us) :
    Sound (level.read enclosing (.memberAccess owner))
      fun ts tree => Derives enclosing (.member tree) (us ++ ts)
  staticMember {type : Token} (htype : type.kind = .typename) :
    Sound (level.read enclosing (.staticMember type))
      fun ts tree => Derives enclosing (.primary tree) (type :: ts)
  primary : Sound (level.read enclosing .primary)
    fun ts tree => Derives enclosing (.primary tree) ts
  expressionList : Sound (level.read enclosing .expressionList)
    fun ts trees => Derives enclosing (.arguments trees) ts

namespace SoundExpressions

variable (hsound : level.SoundExpressions enclosing)

include hsound

theorem read_assignment :
    Sound (level.assignment enclosing none)
      fun ts tree => Derives enclosing (.assignment tree) ts := by
  intro stream tree next hyields
  obtain ⟨target, middle, htarget, hrest⟩ := yields_assignment.mp hyields
  obtain ⟨ts, hts, hderives⟩ := hsound.conditional _ _ _ htarget
  obtain ⟨_, rfl, rfl⟩ | ⟨token, symbol, hkind, hmem, after, hhands, value, hvalue, hassigned⟩ :=
    hrest
  · exact ⟨ts, hts, hderives.ofConditional⟩
  · obtain ⟨us, hus, hvalue'⟩ := hsound.assignment _ _ _ hvalue
    exact ⟨ts ++ token :: us, hts.append (.cons hhands hus),
      hderives.ofAssigned hkind hmem hvalue' hassigned⟩

theorem read_conditional :
    Sound (level.conditional enclosing none)
      fun ts tree => Derives enclosing (.conditional tree) ts := by
  intro stream tree next hyields
  obtain ⟨condition, middle, hcondition, hrest⟩ := yields_conditional.mp hyields
  obtain ⟨⟨ts, hts, hderives⟩, _⟩ := hsound.binary (by omega) hcondition
  obtain ⟨_, rfl, rfl⟩ | ⟨question, hquestion, s₁, hhands, holds, s₂, hholds, colon, hcolon, s₃,
    hhands', fails, hfails, rfl⟩ := hrest
  · exact ⟨ts, hts, hderives.ofBinary⟩
  · obtain ⟨us, hus, hholds'⟩ := hsound.expression _ _ _ hholds
    obtain ⟨vs, hvs, hfails'⟩ := hsound.conditional _ _ _ hfails
    refine ⟨ts ++ question :: us ++ colon :: vs, ?_,
      .choice hderives hquestion hholds' hcolon hfails'⟩
    exact (hts.append (.cons hhands hus)).append (.cons hhands' hvs)

/-- The loop over binary operators keeps a left operand whose own level allows the operator that
comes next. -/
theorem read_binary {least : Nat} (hleast : least ≤ 7) {stream next : TokenStream}
    {tree : Expr Token} (hyields : Yields (level.binary enclosing least none) stream tree next) :
    (∃ ts, stream.Passes ts next ∧ Derives enclosing (.binary least tree) ts) ∧
      NoOperator least next := by
  obtain ⟨first, middle, hfirst, hloop⟩ := yields_binary.mp hyields
  refine hloop.iterate_induction
    (fun s left => ∃ reached, least ≤ reached ∧ NoOperator (reached + 1) s ∧
      ∃ ts, stream.Passes ts s ∧ Derives enclosing (.binary reached left) ts)
    (fun s left => (∃ ts, stream.Passes ts s ∧ Derives enclosing (.binary least left) ts) ∧
      NoOperator least s) ?_ ?_ ?_
  · intro s left s' ⟨reached, hreached, _, ts, hts, hderives⟩ hstep
    obtain ⟨hlooser, _, rfl⟩ | ⟨_, _, _, _, _, _, _, _, hsome⟩ := yields_joinBinary.mp hstep
    · exact ⟨⟨ts, hts, hderives.looser hreached⟩, (noOperator_iff (by omega)).mpr hlooser⟩
    · simp at hsome
  · intro s left s' joined ⟨reached, hreached, hallowed, ts, hts, hderives⟩ hstep
    obtain ⟨_, hnone, _⟩ | ⟨symbol, precedence, hbinary, hprecedence, after, hhands, right, hright,
      hsome⟩ := yields_joinBinary.mp hstep
    · simp at hnone
    · obtain rfl := Option.some.inj hsome
      obtain ⟨hkind, hmem⟩ := Token.binary?_eq_some_iff.mp hbinary
      have hbound := le_of_mem_binaryOperators hmem
      obtain ⟨⟨us, hus, hright'⟩, hstops⟩ := hsound.binary (by omega) hright
      have hleft := hderives.looser (Nat.le_of_lt_succ (hallowed _ _ hbinary))
      exact ⟨⟨precedence, hprecedence, hstops, ts ++ s.buffered :: us,
        hts.append (.cons hhands hus), .join hleft hkind hmem hright'⟩,
        Nat.lt_of_le_of_lt hus.remaining_le hhands.remaining_lt⟩
  · obtain ⟨ts, hts, hunary⟩ := hsound.unary _ _ _ hfirst
    refine ⟨7, hleast, ?_, ts, hts, hunary.ofUnary⟩
    intro operator precedence hbinary
    have hbound := le_of_mem_binaryOperators (Token.binary?_eq_some_iff.mp hbinary).2
    omega

theorem read_unary :
    Sound (level.unary enclosing) fun ts tree => Derives enclosing (.unary tree) ts := by
  intro stream tree next hyields
  obtain ⟨_, hsuffixed⟩ | ⟨token, operator, hkind, hmem, middle, hhands, operand, hoperand, rfl⟩ :=
    yields_unary.mp hyields
  · obtain ⟨ts, hts, hderives⟩ := hsound.suffixed _ _ _ hsuffixed
    exact ⟨ts, hts, hderives.ofSuffixed⟩
  · obtain ⟨ts, hts, hderives⟩ := hsound.unary _ _ _ hoperand
    exact ⟨token :: ts, .cons hhands hts, .leading hkind hmem hderives⟩

theorem read_suffixed :
    Sound (level.suffixed enclosing none)
      fun ts tree => Derives enclosing (.suffixed tree) ts := by
  intro stream tree next hyields
  obtain ⟨first, s₁, hfirst, operand, s₂, hoperand, hloop⟩ := yields_suffixed.mp hyields
  refine hloop.iterate_induction
    (fun s operand => ∃ ts, stream.Passes ts s ∧
      Derives enclosing (.suffixed operand) ts)
    (fun s operand => ∃ ts, stream.Passes ts s ∧
      Derives enclosing (.suffixed operand) ts) ?_ ?_ ?_
  · intro s operand s' hinvariant hstep
    obtain ⟨_, _, rfl⟩ | ⟨_, _, _, _, _, hsome⟩ := yields_applyTrailing.mp hstep
    · exact hinvariant
    · simp at hsome
  · intro s operand s' applied ⟨ts, hts, hderives⟩ hstep
    obtain ⟨_, hnone, _⟩ | ⟨token, operator, hkind, hmem, hhands, hsome⟩ :=
      yields_applyTrailing.mp hstep
    · simp at hnone
    · obtain rfl := Option.some.inj hsome
      exact ⟨⟨ts ++ [token], hts.append (.single hhands), .trailing hderives hkind hmem⟩,
        hhands.remaining_lt⟩
  · obtain ⟨ts, hts, hprimary⟩ := hsound.primary _ _ _ hfirst
    obtain ⟨us, hus, hmember⟩ := hsound.memberAccess hprimary.ofPrimary _ _ _ hoperand
    exact ⟨ts ++ us, hts.append hus, hmember.ofMember⟩

theorem read_memberAccess {owner : Expr Token} {us : List Token}
    (howner : Derives enclosing (.member owner) us) :
    Sound (iterate (level.accessMember enclosing) owner)
      fun ts tree => Derives enclosing (.member tree) (us ++ ts) := by
  intro stream tree next hyields
  refine hyields.iterate_induction
    (fun s owner => ∃ ts, stream.Passes ts s ∧
      Derives enclosing (.member owner) (us ++ ts))
    (fun s owner => ∃ ts, stream.Passes ts s ∧
      Derives enclosing (.member owner) (us ++ ts)) ?_ ?_ ?_
  · intro s owner s' hinvariant hstep
    obtain ⟨_, _, rfl⟩ | ⟨_, _, _, _, _, _, _, _, hsome⟩ := yields_accessMember.mp hstep
    · exact hinvariant
    · split at hsome <;> simp at hsome
  · intro s owner s' accessed ⟨ts, hts, hderives⟩ hstep
    obtain ⟨_, hnone, _⟩ | ⟨dot, hdot, s₁, hhands, name, hname, s₂, hhands', hmember⟩ :=
      yields_accessMember.mp hstep
    · simp at hnone
    have hfront : s.Passes [dot, name] s₂ := .cons hhands (.single hhands')
    split at hmember
    next =>
      obtain ⟨arguments, harguments, hsome⟩ := hmember
      obtain rfl := Option.some.inj hsome
      obtain ⟨vs, hvs, hderives'⟩ := hsound.expressionList _ _ _ harguments
      have hcall := Derives.call hderives hdot hname hderives'
      rw [List.append_assoc] at hcall
      exact ⟨⟨ts ++ ([dot, name] ++ vs), hts.append (hfront.append hvs), hcall⟩,
        (hfront.append hvs).remaining_lt (by simp)⟩
    next =>
      obtain ⟨hsome, rfl⟩ := hmember
      obtain rfl := Option.some.inj hsome
      have hfield := Derives.field hderives hdot hname
      rw [List.append_assoc] at hfield
      exact ⟨⟨ts ++ [dot, name], hts.append hfront, hfield⟩, hfront.remaining_lt (by simp)⟩
  · exact ⟨[], .nil _, by simpa using howner⟩

theorem read_staticMember {type : Token} (htype : type.kind = .typename) :
    Sound (level.staticMember enclosing type)
      fun ts tree => Derives enclosing (.primary tree) (type :: ts) := by
  intro stream tree next hyields
  obtain ⟨dot, hdot, s₁, hhands, name, hname, s₂, hhands', hmember⟩ :=
    yields_staticMember.mp hyields
  have hfront : stream.Passes [dot, name] s₂ := .cons hhands (.single hhands')
  split at hmember
  next =>
    obtain ⟨arguments, harguments, rfl⟩ := hmember
    obtain ⟨ts, hts, hderives⟩ := hsound.expressionList _ _ _ harguments
    exact ⟨[dot, name] ++ ts, hfront.append hts, .staticCall htype hdot hname hderives⟩
  next =>
    obtain ⟨rfl, rfl⟩ := hmember
    exact ⟨[dot, name], hfront, .staticField htype hdot hname⟩

theorem read_callOrName {name : Token} (hname : name.kind = .name) :
    Sound (level.callOrName enclosing name)
      fun ts tree => Derives enclosing (.primary tree) (name :: ts) := by
  intro stream tree next hyields
  have hcases := yields_callOrName.mp hyields
  split at hcases
  next =>
    obtain ⟨arguments, harguments, rfl⟩ := hcases
    obtain ⟨ts, hts, hderives⟩ := hsound.expressionList _ _ _ harguments
    exact ⟨ts, hts, .ownCall hname hderives⟩
  next =>
    obtain ⟨rfl, rfl⟩ := hcases
    exact ⟨[], .nil _, .name hname⟩

theorem read_named {name : Token} (hname : name.kind = .name) :
    Sound (level.named enclosing name)
      fun ts tree => Derives enclosing (.primary tree) (name :: ts) := by
  intro stream tree next hyields
  have hcases := yields_named.mp hyields
  split at hcases
  next hnew =>
    obtain ⟨type, htype, middle, hhands, arguments, harguments, rfl⟩ := hcases
    obtain ⟨ts, hts, hderives⟩ := hsound.expressionList _ _ _ harguments
    exact ⟨type :: ts, .cons hhands hts, .new hname hnew.1 htype hderives⟩
  next => exact hsound.read_callOrName hname _ _ _ hcases

theorem read_primary :
    Sound (level.primary enclosing) fun ts tree => Derives enclosing (.primary tree) ts := by
  intro stream tree next hyields
  obtain ⟨middle, hhands, hcases⟩ := yields_primary.mp hyields
  split at hcases
  case h_1 hkind =>
    obtain ⟨rfl, rfl⟩ := hcases
    exact ⟨_, .single hhands, .this hkind⟩
  case h_2 hkind =>
    obtain ⟨rfl, rfl⟩ := hcases
    exact ⟨_, .single hhands, .true hkind⟩
  case h_3 hkind =>
    obtain ⟨rfl, rfl⟩ := hcases
    exact ⟨_, .single hhands, .false hkind⟩
  case h_4 hkind =>
    obtain ⟨rfl, rfl⟩ := hcases
    exact ⟨_, .single hhands, .null hkind⟩
  case h_5 hkind =>
    obtain ⟨_, rfl, rfl⟩ := yields_integer.mp hcases
    exact ⟨_, .single hhands, .int hkind⟩
  case h_6 hkind =>
    obtain ⟨rfl, rfl⟩ := hcases
    exact ⟨_, .single hhands, .float hkind⟩
  case h_7 hkind =>
    obtain ⟨rfl, rfl⟩ := hcases
    exact ⟨_, .single hhands, .string hkind⟩
  case h_8 hkind =>
    obtain ⟨inner, htree, close, hclose, hhands'⟩ := hcases
    obtain ⟨ts, hts, hderives⟩ := hsound.expression _ _ _ htree
    exact ⟨_, (Passes.cons hhands hts).append (.single hhands'),
      .parenthesized hkind hderives hclose⟩
  case h_9 hkind =>
    obtain ⟨ts, hts, hderives⟩ := hsound.staticMember hkind _ _ _ hcases
    exact ⟨_, .cons hhands hts, hderives⟩
  case h_10 hkind =>
    obtain ⟨ts, hts, hderives⟩ := hsound.read_named hkind _ _ _ hcases
    exact ⟨_, .cons hhands hts, hderives⟩
  case h_11 => exact hcases.elim

theorem read_expressionList :
    Sound (parenthesizedList (level.read enclosing (.expression none)))
      fun ts trees => Derives enclosing (.arguments trees) ts := by
  intro stream trees next hyields
  obtain ⟨ts, hts, hparenthesized⟩ := hsound.expression.parenthesizedList _ _ _ hyields
  exact ⟨ts, hts, Derives.arguments_iff.mpr hparenthesized⟩

end SoundExpressions

/-- At every nesting depth the rules of expressions read phrases of the grammar. -/
theorem bounded_soundExpressions (digits : Option Nat) (depth : Nat)
    (enclosing : Option String) : (bounded digits depth).SoundExpressions enclosing := by
  induction depth with
  | zero =>
      have hnone {α : Type} {rule : Rule α} {stream next value} :
          ¬ Yields ((bounded digits 0).read enclosing rule) stream value next := by
        simp [Yields, bounded_zero_read]
      constructor
      case binary => exact fun _ _ _ _ hyields => (hnone hyields).elim
      case memberAccess => exact fun _ _ _ _ hyields => (hnone hyields).elim
      case staticMember => exact fun _ _ _ _ hyields => (hnone hyields).elim
      all_goals exact fun _ _ _ hyields => (hnone hyields).elim
  | succ depth ih =>
      exact {
        expression := ih.assignment
        assignment := ih.read_assignment
        conditional := ih.read_conditional
        binary := ih.read_binary
        unary := ih.read_unary
        suffixed := ih.read_suffixed
        memberAccess := ih.read_memberAccess
        staticMember := ih.read_staticMember
        primary := ih.read_primary
        expressionList := ih.read_expressionList }

end Level

end ClassLang
