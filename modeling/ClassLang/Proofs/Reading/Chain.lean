import ClassLang.Proofs.Reading.ProgramGrammar
import ClassLang.Proofs.Syntax.Chain

/-! # Chains and the nesting limit

A limit on how deep rules may nest either stops the reading of a text or has no effect on it. The
rules that read a chain nest no deeper for a longer chain: each tier of a chain is read by one loop,
and there are as many tiers as precedences. So a chain of any length is read at a depth that is
the same for all chains.
-/

namespace ClassLang

open TokenStream ClassLang.Parser Syntax

/-- The token is an operand by itself. As an integer literal it has no more digits than allowed,
else it has no value. -/
def Token.IsOperand (digits : Option Nat) (token : Token) : Prop :=
  token.kind ∈ [.keyword .this, .keyword .true, .keyword .false, .keyword .null, .int, .float,
    .string, .name] ∧ token.Fits digits

theorem Token.IsOperand.kind_mem {digits : Option Nat} {token : Token}
    (hoperand : token.IsOperand digits) : token.kind ∈ operandStarts :=
  List.mem_append_left [Kind.typename, .symbol .parenOpen] hoperand.1

theorem Syntax.IsSuffixed.head {digits : Option Nat} {ts : List Token} {links : List Link}
    (hsuffixed : IsSuffixed (Token.IsOperand digits) ts links) :
    ∃ token rest, ts = token :: rest ∧ token.kind ∈ operandStarts := by
  induction hsuffixed with
  | ofAccessed haccessed =>
      induction haccessed with
      | operand hoperand => exact ⟨_, [], rfl, hoperand.kind_mem⟩
      | field _ _ _ ih | call _ _ _ _ _ ih =>
          obtain ⟨token, rest, rfl, hkind⟩ := ih
          exact ⟨token, _, rfl, hkind⟩
  | trailing _ _ _ ih =>
      obtain ⟨token, rest, rfl, hkind⟩ := ih
      exact ⟨token, _, rfl, hkind⟩

namespace Level

variable {digits : Option Nat} {enclosing : Option String} {ts : List Token} {links : List Link}

/-! ## One depth for all chains -/

/-- A primary expression of a single token is read one rule deep. -/
theorem covers_single {token : Token} {tree : Expr Token}
    (hderives : Derives enclosing (.primary tree) [token]) (hfits : token.Fits digits)
    (depth : Nat) : (bounded digits (depth + 1)).Covers enclosing [token] (.primary tree) := by
  generalize htokens : [token] = tokens at hderives
  cases hderives with
  | this hkind | true hkind | false hkind | null hkind | float hkind | string hkind =>
      obtain rfl := List.singleton_inj.mp htokens
      refine .literal fun stream next hshown hhands => ?_
      exact yields_primary.mpr ⟨next, hshown ▸ hhands, by simp [hshown, hkind]⟩
  | int hkind =>
      obtain rfl := List.singleton_inj.mp htokens
      refine .literal fun stream next hshown hhands => ?_
      refine yields_primary.mpr ⟨next, hshown ▸ hhands, ?_⟩
      simp only [hshown, hkind]
      refine yields_integer.mpr ⟨?_, rfl, rfl⟩
      rw [integerDigits_bounded]
      exact hfits hkind
  | name hkind =>
      obtain rfl := List.singleton_inj.mp htokens
      exact .name hkind
  | parenthesized | staticField | staticCall | new => simp at htokens
  | ownCall _ harguments =>
      obtain ⟨_, _, rfl, -⟩ := harguments.head
      simp at htokens

theorem covers_operand {token : Token} (hoperand : token.IsOperand digits) :
    ∃ tree : Expr Token, tree.links = [.operand token] ∧
      ∀ depth, (bounded digits (depth + 1)).Covers enclosing [token] (.primary tree) := by
  obtain ⟨tree, hlinks, hderives⟩ : ∃ tree : Expr Token, tree.links = [.operand token] ∧
      Derives enclosing (.primary tree) [token] := by
    have hmem := hoperand.1
    simp only [List.mem_cons, List.not_mem_nil, or_false] at hmem
    rcases hmem with hkind | hkind | hkind | hkind | hkind | hkind | hkind | hkind
    · exact ⟨_, by simp [Expr.links, Expr.tag], .this hkind⟩
    · exact ⟨_, by simp [Expr.links, Expr.tag], .true hkind⟩
    · exact ⟨_, by simp [Expr.links, Expr.tag], .false hkind⟩
    · exact ⟨_, by simp [Expr.links, Expr.tag], .null hkind⟩
    · exact ⟨_, by simp [Expr.links, Expr.tag], .int hkind⟩
    · exact ⟨_, by simp [Expr.links, Expr.tag], .float hkind⟩
    · exact ⟨_, by simp [Expr.links, Expr.tag], .string hkind⟩
    · exact ⟨_, by simp [Expr.links, Expr.tag], .name hkind⟩
  exact ⟨tree, hlinks, covers_single hderives hoperand.2⟩

/-- Members of an operand are read by one loop. -/
theorem covers_accessed (haccessed : IsAccessed (Token.IsOperand digits) ts links) :
    ∃ tree : Expr Token, tree.links = links ∧
      ∀ depth, (bounded digits (depth + 4)).Covers enclosing ts (.member tree) := by
  induction haccessed with
  | operand hoperand =>
      obtain ⟨tree, hlinks, htree⟩ := covers_operand hoperand
      exact ⟨tree, hlinks, fun depth => (htree (depth + 2)).ofPrimary⟩
  | @field ts links dot name _ hdot hname ih =>
      obtain ⟨owner, rfl, howner⟩ := ih
      exact ⟨.get dot owner name.payload, by simp [Expr.links],
        fun depth => (howner depth).field hdot hname⟩
  | @call ts links dot name _ _ _ hdot hname hopening hclosing ih =>
      obtain ⟨owner, rfl, howner⟩ := ih
      refine ⟨.call dot owner name.payload [], by simp [Expr.links], fun depth => ?_⟩
      exact (howner depth).call hdot hname (.noArguments hopening hclosing)
        (.arguments (.empty hopening hclosing))

/-- Operators after an operand are read by one loop. -/
theorem covers_suffixed (hsuffixed : IsSuffixed (Token.IsOperand digits) ts links) :
    ∃ tree : Expr Token, tree.links = links ∧
      ∀ depth, (bounded digits (depth + 4)).Covers enclosing ts (.suffixed tree) := by
  induction hsuffixed with
  | ofAccessed haccessed =>
      obtain ⟨tree, hlinks, htree⟩ := covers_accessed haccessed
      exact ⟨tree, hlinks, fun depth => (htree depth).ofMember⟩
  | @trailing _ _ _ symbol _ hkind hmem ih =>
      obtain ⟨tree, rfl, htree⟩ := ih
      exact ⟨.operator tree.tag (.symbol symbol) [tree], by simp [Expr.links],
        fun depth => (htree depth).trailing hkind hmem⟩

/-- A tier is read by one loop. The tier below it, of the next precedence, nests one rule deeper. -/
theorem covers_tier {precedence : Nat}
    (htier : IsTier (Token.IsOperand digits) precedence ts links) :
    ∃ tree : Expr Token, tree.links = links ∧ ∀ depth, 13 ≤ depth + precedence →
      (bounded digits depth).Covers enclosing ts (.binary precedence tree) := by
  induction htier with
  | ofSuffixed hsuffixed =>
      obtain ⟨tree, hlinks, htree⟩ := covers_suffixed hsuffixed
      refine ⟨tree, hlinks, fun depth hdepth => ?_⟩
      obtain ⟨inner, rfl⟩ := Nat.exists_eq_add_of_le' (show 6 ≤ depth by omega)
      exact ((htree inner).ofSuffixed hsuffixed.head).ofUnary
  | ofTighter _ ih =>
      obtain ⟨tree, hlinks, htree⟩ := ih
      exact ⟨tree, hlinks, fun depth hdepth => (htree depth (by omega)).ofTighter⟩
  | @join precedence _ _ _ symbol _ _ _ hkind hmem _ ihleft ihright =>
      obtain ⟨left, rfl, hleft⟩ := ihleft
      obtain ⟨right, rfl, hright⟩ := ihright
      have hbound := le_of_mem_binaryOperators hmem
      refine ⟨.operator left.tag (.symbol symbol) [left, right], by simp [Expr.links],
        fun depth hdepth => ?_⟩
      obtain ⟨inner, rfl⟩ := Nat.exists_eq_add_of_le' (show 2 ≤ depth by omega)
      exact (hleft (inner + 2) hdepth).join hkind hmem (hright (inner + 1) (by omega))

/-- Whatever its length, a chain is read by rules nested fifteen deep. -/
theorem reads_chain (hchain : IsChain (Token.IsOperand digits) ts links) :
    ∃ tree : Expr Token, tree.links = links ∧ ∀ depth,
      (bounded digits (depth + 15)).Reads enclosing (.expression none) ts tree
        (·.tightness < 1) := by
  obtain ⟨tree, hlinks, htree⟩ := covers_tier hchain.isTier
  refine ⟨tree, hlinks, fun depth stream next hpasses htight => ?_⟩
  have hbinary := htree (depth + 11 + 1) (by omega)
  rw [bounded_succ_read]
  exact hbinary.ofBinary.ofConditional stream next hpasses htight

end Level

/-! ## Whole texts -/

namespace Expr

variable {source : Source} {tokens : List Token} {last : Token} {links : List Link}

theorem readWithin_chain (htokens : TokenStream.tokens source = .ok (tokens ++ [last]))
    (hchain : IsChain (Token.IsOperand (some Failure.integerDigits)) tokens links) {limit : Nat}
    (hlimit : 15 ≤ limit) :
    ∃ tree, Expr.readWithin limit source = .ok tree ∧ tree.links = links := by
  obtain ⟨tree, hlinks, hreads⟩ := Level.reads_chain hchain
  obtain ⟨depth, rfl⟩ := Nat.exists_eq_add_of_le' hlimit
  exact ⟨tree, run_wholeExpression htokens (hreads depth), hlinks⟩

/-- Where the digits of integers are not bounded, a chain is read. So with a bound on them nothing
but this bound can be exceeded. -/
theorem not_isNesting_of_chain (htokens : TokenStream.tokens source = .ok (tokens ++ [last]))
    (hchain : IsChain (Token.IsOperand none) tokens links) {limit : Nat} (hlimit : 15 ≤ limit)
    {failure : Failure} (hread : Expr.readWithin limit source = .error failure) :
    ¬ failure.IsNesting := by
  obtain ⟨tree, -, hreads⟩ := Level.reads_chain hchain
  obtain ⟨depth, rfl⟩ := Nat.exists_eq_add_of_le' hlimit
  have hunbounded := run_wholeExpression htokens (hreads depth)
  have happrox := Level.bounded_approximates_unbounded (some Failure.integerDigits) (depth + 15)
  rcases happrox.wholeExpression.run source with ⟨_, herror, digits, rfl⟩ | heq
  · obtain rfl := Except.error.inj (hread.symm.trans herror)
    exact id
  · rw [hunbounded] at heq
    exact absurd (hread.symm.trans heq) nofun

end Expr

/-- **The limit on the nesting of rules stops the reading of a text or has no effect on it, and a
chain, of any length, is read at a depth far below the limit.** -/
theorem nesting_alone_is_limited :
    (∀ (source : Source) (depth deeper : Nat), depth ≤ deeper →
      ((∃ failure, Program.readWithin depth source = .error failure ∧ failure.IsNesting) ∨
        Program.readWithin depth source = Program.readWithin deeper source) ∧
      ((∃ failure, Expr.readWithin depth source = .error failure ∧ failure.IsNesting) ∨
        Expr.readWithin depth source = Expr.readWithin deeper source)) ∧
    ∃ bound < nestingLimit, ∀ limit, bound ≤ limit →
      ∀ (source : Source) (tokens : List Token) (last : Token) (links : List Link),
        TokenStream.tokens source = .ok (tokens ++ [last]) →
        (IsChain (Token.IsOperand (some Failure.integerDigits)) tokens links →
          ∃ tree, Expr.readWithin limit source = .ok tree ∧ tree.links = links) ∧
        (IsChain (Token.IsOperand none) tokens links →
          ∀ failure, Expr.readWithin limit source = .error failure → ¬ failure.IsNesting) := by
  refine ⟨fun source depth deeper hle =>
    ⟨Program.readWithin_deeper hle source, Expr.readWithin_deeper hle source⟩,
    15, by decide, fun limit hlimit source tokens last links htokens => ⟨fun hchain => ?_,
      fun hchain failure hread => ?_⟩⟩
  · exact Expr.readWithin_chain htokens hchain hlimit
  · exact Expr.not_isNesting_of_chain htokens hchain hlimit hread

/-- A chain of five steps, in which tighter operators stand on either side of looser ones. -/
theorem nesting_alone_is_limited_mixed :
    let source := Source.ofString "main" "a.f()++ < b * 2 || c"
    let dot : Token := ⟨.symbol .dot, none, 1, 2⟩
    let tokens : List Token :=
      [⟨.name, some "a", 0, 1⟩, dot, ⟨.name, some "f", 2, 3⟩, ⟨.symbol .parenOpen, none, 3, 4⟩,
        ⟨.symbol .parenClose, none, 4, 5⟩, ⟨.symbol .increment, none, 5, 7⟩,
        ⟨.symbol .less, none, 8, 9⟩, ⟨.name, some "b", 10, 11⟩, ⟨.symbol .star, none, 12, 13⟩,
        ⟨.int, some "2", 14, 15⟩, ⟨.symbol .or, none, 16, 18⟩, ⟨.name, some "c", 19, 20⟩]
    let links : List Link :=
      [.operand ⟨.name, some "a", 0, 1⟩, .call dot "f", .trailing .increment, .between .less,
        .operand ⟨.name, some "b", 10, 11⟩, .between .star, .operand ⟨.int, some "2", 14, 15⟩,
        .between .or, .operand ⟨.name, some "c", 19, 20⟩]
    TokenStream.tokens source = .ok (tokens ++ [.endOfText 20]) ∧
      IsChain (Token.IsOperand (some Failure.integerDigits)) tokens links ∧
      (∃ tree, Expr.read source = .ok tree ∧ tree.links = links) ∧
      Expr.readWithin 15 source = Expr.read source := by
  intro source dot tokens links
  have htokens : TokenStream.tokens source = .ok (tokens ++ [.endOfText 20]) := by decide +kernel
  have hname (text : String) (start : Nat) (stop : Int) :
      Token.IsOperand (some Failure.integerDigits) ⟨.name, some text, start, stop⟩ :=
    ⟨by simp, nofun⟩
  have htwo : Token.IsOperand (some Failure.integerDigits) ⟨.int, some "2", 14, 15⟩ :=
    ⟨by simp, fun _ => by decide⟩
  have hkind (symbol : Symbol) (start : Nat) (stop : Int) :
      (⟨.symbol symbol, none, start, stop⟩ : Token).kind = .symbol symbol := rfl
  have hcall := IsAccessed.call (.operand (hname "a" 0 1)) (hkind .dot 1 2)
    (show (⟨.name, some "f", 2, 3⟩ : Token).kind = .name from rfl) (hkind .parenOpen 3 4)
    (hkind .parenClose 4 5)
  have hsuffixed := IsSuffixed.trailing (.ofAccessed hcall) (hkind .increment 5 7) (by decide)
  have hless := IsChain.join (.ofSuffixed hsuffixed) (hkind .less 8 9)
    (show _ ∈ binaryOperators 4 by decide) (.ofAccessed (.operand (hname "b" 10 11)))
  have hstar := hless.join (hkind .star 12 13) (show _ ∈ binaryOperators 6 by decide)
    (.ofAccessed (.operand htwo))
  have hchain : IsChain (Token.IsOperand (some Failure.integerDigits)) tokens links :=
    hstar.join (hkind .or 16 18) (show _ ∈ binaryOperators 1 by decide)
      (.ofAccessed (.operand (hname "c" 19 20)))
  obtain ⟨hdeeper, bound, hbound, hchains⟩ := nesting_alone_is_limited
  refine ⟨htokens, hchain, ?_, ?_⟩
  · exact (hchains nestingLimit hbound.le source tokens _ links htokens).1 hchain
  · rcases (hdeeper source 15 nestingLimit (by decide)).2 with ⟨failure, herror, -⟩ | heq
    · have hread : (Expr.readWithin 15 source).isOk = true := by decide +kernel
      simp [herror, Except.isOk, Except.toBool] at hread
    · exact heq

end ClassLang
