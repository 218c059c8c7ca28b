import ClassLang.Proofs.Reading.ExpressionComplete
import ClassLang.Proofs.Syntax.Precedence

/-! # Reading by precedence

The rule for binary operators is a loop that calls itself for right operands with a raised bound.
Whatever operators stand in a row, it builds the tree of the one grouping that precedence decides
on, and takes the row and nothing behind it.
-/

namespace ClassLang.Level

open TokenStream ClassLang.Parser Syntax

/-- Binary operators lead from the one stream to the other, each with an operand behind it, which is
what the level reads in this place as an operand with operators before it. -/
inductive Row (level : Level) (enclosing : Option String) :
    TokenStream → List (Symbol × Expr Token) → TokenStream → Prop
  | nil (stream : TokenStream) : Row level enclosing stream [] stream
  | cons {stream middle next last operator precedence operand rest} :
      stream.buffered.binary? = some (operator, precedence) →
      stream.Hands stream.buffered middle →
      Yields (level.read enclosing .unary) middle operand next →
      Row level enclosing next rest last →
      Row level enclosing stream ((operator, operand) :: rest) last

variable {digits : Option Nat} {depth inner least : Nat} {enclosing : Option String}
  {stream middle last : TokenStream} {rest : List (Symbol × Expr Token)}

theorem rank_of_binary? {operator : Symbol} {precedence : Nat}
    (hbinary : stream.buffered.binary? = some (operator, precedence)) :
    operator.rank = precedence ∧ 1 ≤ precedence ∧ precedence ≤ 6 := by
  have hmem := (Token.binary?_eq_some_iff.mp hbinary).2
  exact ⟨Symbol.rank_of_precedence? (mem_binaryOperators_iff.mp hmem),
    le_of_mem_binaryOperators hmem⟩

namespace Row

theorem split {level : Level} {front back : List (Symbol × Expr Token)}
    (hrow : Row level enclosing stream (front ++ back) last) :
    ∃ middle, Row level enclosing stream front middle ∧ Row level enclosing middle back last := by
  induction front generalizing stream with
  | nil => exact ⟨stream, .nil stream, hrow⟩
  | cons step front ih =>
      cases hrow with
      | cons hbinary hhands hoperand hrest =>
          obtain ⟨middle, hfront, hback⟩ := ih hrest
          exact ⟨middle, .cons hbinary hhands hoperand hfront, hback⟩

/-- A row is made of tokens, of at least one for each step. -/
theorem passes (hrow : Row (bounded digits inner) enclosing stream rest last) :
    ∃ tokens, stream.Passes tokens last ∧ rest.length ≤ tokens.length := by
  induction hrow with
  | nil stream => exact ⟨[], .nil stream, Nat.le_refl _⟩
  | cons _ hhands hoperand _ ih =>
      have hsound := bounded_soundExpressions digits inner enclosing
      obtain ⟨ts, hts, -⟩ := hsound.unary _ _ _ hoperand
      obtain ⟨us, hus, hlength⟩ := ih
      refine ⟨_ :: ts ++ us, Passes.cons hhands (hts.append hus), ?_⟩
      simp only [List.length_cons, List.length_append]
      omega

theorem remaining_lt (hrow : Row (bounded digits inner) enclosing stream rest last)
    (hrest : rest ≠ []) : last.remaining < stream.remaining := by
  obtain ⟨tokens, hpasses, hlength⟩ := hrow.passes
  refine hpasses.remaining_lt ?_
  rintro rfl
  exact hrest (List.length_eq_zero_iff.mp (Nat.le_zero.mp hlength))

end Row

/-- Reading on from the tree of a grouping is reading on from its first operand, if what stands
behind it binds no tighter than any operator in it. -/
theorem yields_from_first {grouping : Grouping} {result : Expr Token}
    (hranked : grouping.Ranked) (hleast : ∀ step ∈ grouping.rest, least ≤ step.1.rank)
    (hrow : Row (bounded digits inner) enclosing stream grouping.rest middle)
    (hbehind : ∀ step ∈ grouping.rest, NoOperator (step.1.rank + 1) middle)
    (hdepth : inner + 7 ≤ depth + least)
    (hloop : Yields (iterate ((bounded digits depth).joinBinary enclosing least) grouping.tree)
      middle result last) :
    Yields (iterate ((bounded digits depth).joinBinary enclosing least) grouping.first)
      stream result last := by
  induction grouping generalizing depth least stream middle result last with
  | operand =>
      cases hrow
      exact hloop
  | join left root right ihleft ihright =>
      obtain ⟨hleft, hright, hranked_left, hranked_right⟩ := hranked
      obtain ⟨s₁, hrow_left, hback⟩ := hrow.split
      have hprogress : middle.remaining < s₁.remaining := hback.remaining_lt (by simp)
      cases hback with
      | @cons _ s₂ s₃ _ _ precedence _ _ hbinary hhands hoperand hrow_right =>
          obtain ⟨hrank, hlower, hupper⟩ := rank_of_binary? hbinary
          have hmem : (root, right.first) ∈ (Grouping.join left root right).rest :=
            List.mem_append_right _ List.mem_cons_self
          have hroot : least ≤ precedence := hrank ▸ hleast _ hmem
          have hstop : NoOperator (precedence + 1) middle := hrank ▸ hbehind _ hmem
          obtain ⟨depth, rfl⟩ := Nat.exists_eq_add_of_le' (show 1 ≤ depth by omega)
          -- Its right operand takes the operators that bind tighter than the root, and stops.
          have hoperands : Yields ((bounded digits (depth + 1)).read enclosing
              (.binary (precedence + 1) none)) s₂ right.tree middle := by
            refine yields_binary.mpr ⟨right.first, s₃, hoperand.deeper (by omega), ?_⟩
            refine ihright hranked_right ?_ hrow_right ?_ (by omega) ?_
            · intro step hstep
              exact hrank ▸ hright step hstep
            · intro step hstep operator following hfollowing
              have hle := hstop operator following hfollowing
              have hlt := hright step hstep
              omega
            · have hlooser := (noOperator_iff (by omega)).mp hstop
              exact yields_iterate_stop (yields_joinBinary.mpr (.inl ⟨hlooser, rfl, rfl⟩))
          -- Its left operand has taken the operators before the root, which bind no looser.
          refine ihleft hranked_left ?_ hrow_left ?_ hdepth ?_
          · intro step hstep
            exact hleast step (List.mem_append_left _ hstep)
          · intro step hstep operator following hfollowing
            obtain ⟨-, rfl⟩ := Prod.mk.inj (Option.some.inj (hbinary.symm.trans hfollowing))
            exact Nat.lt_succ_of_le (hrank ▸ hleft step hstep)
          · exact yields_iterate_next (yields_joinBinary.mpr (.inr ⟨root, precedence, hbinary,
              hroot, s₂, hhands, right.tree, hoperands, rfl⟩)) hprogress hloop

/-- **Operands with binary operators of at least some precedence between them are read as
precedence groups them, up to the first token that is no such operator.** The precedence is one that
operators have. There is one such grouping; its first operand may be read with the others or have
been read before. A few more rules nest than for an operand alone. -/
theorem binary_reads_grouping {first : Expr Token} (hpositive : 1 ≤ least)
    (hrow : Row (bounded digits inner) enclosing middle rest last)
    (hleast : ∀ step ∈ rest, least ≤ step.1.rank) (hstop : NoOperator least last) :
    ∃ grouping : Grouping, (∀ other : Grouping, other.Groups first rest ↔ other = grouping) ∧
      ReadsWithin digits (inner + 8) enclosing (.binary least (some first)) middle grouping.tree
        last ∧
      ∀ stream, Yields ((bounded digits inner).read enclosing .unary) stream first middle →
        ReadsWithin digits (inner + 8) enclosing (.binary least none) stream grouping.tree
          last := by
  obtain ⟨grouping, hgroups, hunique⟩ := Grouping.existsUnique_groups first rest
  have hloop : Yields (iterate ((bounded digits (inner + 7)).joinBinary enclosing least) first)
      middle grouping.tree last := by
    obtain ⟨rfl, rfl, hranked⟩ := hgroups
    refine yields_from_first hranked hleast hrow ?_ (by omega) ?_
    · intro step hstep operator following hfollowing
      have hlt := hstop operator following hfollowing
      have hle := hleast step hstep
      omega
    · have hlooser := (noOperator_iff hpositive).mp hstop
      exact yields_iterate_stop (yields_joinBinary.mpr (.inl ⟨hlooser, rfl, rfl⟩))
  refine ⟨grouping, fun other => ⟨hunique other, fun heq => heq ▸ hgroups⟩, ?_, ?_⟩
  · have hread : Yields ((bounded digits (inner + 8)).read enclosing (.binary least (some first)))
        middle grouping.tree last := yields_binary_some.mpr hloop
    exact hread.readsWithin
  · intro stream hfirst
    have hread : Yields ((bounded digits (inner + 8)).read enclosing (.binary least none))
        stream grouping.tree last :=
      yields_binary.mpr ⟨first, middle, hfirst.deeper (by omega), hloop⟩
    exact hread.readsWithin

/-- A name is an operand. -/
theorem yields_unary_of_name {next : TokenStream} {token : Token} (hname : token.kind = .name)
    (hhands : stream.Hands token next) (htight : next.buffered.tightness < 10) :
    Yields ((bounded digits (depth + 3)).read enclosing .unary) stream
      (.name token token.payload) next := by
  have hprimary : (bounded digits (depth + 1)).Covers enclosing [token]
      (.primary (.name token token.payload)) := Covers.name hname
  have hoperand : token.kind ∈ operandStarts := hname ▸ by decide
  exact hprimary.ofPrimary.ofMember.ofSuffixed ⟨token, [], rfl, hoperand⟩ stream next
    (.single hhands) htight

/-- Between equal operators stands one that binds tighter, and a looser one stands behind them. -/
theorem binary_reads_grouping_mixed :
    let name (text : String) (start : Nat) : Token := ⟨.name, some text, start, start + 1⟩
    let operator (symbol : Symbol) (start : Nat) : Token := ⟨.symbol symbol, none, start, start + 1⟩
    let operand (token : Token) : Expr Token := .name token token.payload
    let a := name "a" 0
    let b := name "b" 4
    let c := name "c" 8
    let d := name "d" 12
    let behind : List Token := [operator .less 14, name "e" 16]
    let middle := TokenStream.ofTokens
      (operator .minus 2 :: b :: operator .star 6 :: c :: operator .minus 10 :: d :: behind)
    let stream := TokenStream.ofTokens
      (a :: operator .minus 2 :: b :: operator .star 6 :: c :: operator .minus 10 :: d :: behind)
    let rest := [(.minus, operand b), (.star, operand c), (.minus, operand d)]
    Row (bounded none 3) none middle rest (TokenStream.ofTokens behind) ∧
      (∀ step ∈ rest, 5 ≤ step.1.rank) ∧ NoOperator 5 (TokenStream.ofTokens behind) ∧
      ReadsWithin none 11 none (.binary 5 none) stream
        (.operator a (.symbol .minus) [.operator a (.symbol .minus) [operand a,
          .operator b (.symbol .star) [operand b, operand c]], operand d])
        (TokenStream.ofTokens behind) := by
  intro name operator operand a b c d behind middle stream rest
  have hname (token : Token) (tokens : List Token) (hkind : token.kind = .name)
      (htight : (TokenStream.ofTokens tokens).buffered.tightness < 10) :
      Yields ((bounded none 3).read none .unary) (TokenStream.ofTokens (token :: tokens))
        (operand token) (TokenStream.ofTokens tokens) :=
    yields_unary_of_name hkind (hands_ofTokens (by simp [hkind])) htight
  have hrow : Row (bounded none 3) none middle rest (TokenStream.ofTokens behind) := by
    refine .cons rfl (hands_ofTokens (by decide)) (hname b _ rfl (by decide)) ?_
    refine .cons rfl (hands_ofTokens (by decide)) (hname c _ rfl (by decide)) ?_
    exact .cons rfl (hands_ofTokens (by decide)) (hname d _ rfl (by decide)) (.nil _)
  have hleast : ∀ step ∈ rest, 5 ≤ step.1.rank := by
    simp [rest, Symbol.rank, Symbol.precedence?]
  have hstop : NoOperator 5 (TokenStream.ofTokens behind) := noOperator_of_tightness (by decide)
  obtain ⟨grouping, hgroups, -, hread⟩ :=
    @binary_reads_grouping none 3 5 none middle _ rest (operand a) (by decide) hrow hleast
      hstop
  have heq : Grouping.join (.join (.operand (operand a)) .minus
      (.join (.operand (operand b)) .star (.operand (operand c)))) .minus
      (.operand (operand d)) = grouping := by
    refine (hgroups _).mp ⟨rfl, rfl, ?_⟩
    simp [Grouping.Ranked, Grouping.rest, Symbol.rank, Symbol.precedence?]
  refine ⟨hrow, hleast, hstop, ?_⟩
  have hmixed := hread stream (hname a _ rfl (by decide))
  rwa [← heq] at hmixed

/-! ## Precedence zero -/

/-- Where the precedence is zero, every token is taken for an operator, so none ends a row. -/
theorem not_yields_binary_zero {left : Option (Expr Token)} {tree : Expr Token} :
    ¬ Yields ((bounded digits depth).read enclosing (.binary 0 left)) stream tree last := by
  cases depth with
  | zero => simp [Yields, bounded_zero_read]
  | succ depth =>
      have hloop (first : Expr Token) (start : TokenStream) :
          ¬ Yields (iterate ((bounded digits depth).joinBinary enclosing 0) first) start tree
            last := by
        intro hyields
        refine hyields.iterate_induction (fun _ _ => True) (fun _ _ => False) ?_ ?_ trivial
        · intro s value next _ hstop
          obtain ⟨hlooser, -⟩ | ⟨_, _, _, _, _, _, _, _, hsome⟩ := yields_joinBinary.mp hstop
          · exact Nat.not_lt_zero _ hlooser
          · cases hsome
        · intro s value next extended _ hstep
          obtain ⟨hlooser, -⟩ | ⟨_, _, hbinary, _, _, hhands, _, hright, -⟩ :=
            yields_joinBinary.mp hstep
          · exact absurd hlooser (Nat.not_lt_zero _)
          · have hupper := (rank_of_binary? hbinary).2.2
            obtain ⟨⟨us, hus, -⟩, -⟩ :=
              (bounded_soundExpressions digits depth enclosing).binary (by omega) hright
            exact ⟨trivial, Nat.lt_of_le_of_lt hus.remaining_le hhands.remaining_lt⟩
      rw [bounded_succ_read]
      cases left with
      | none =>
          intro hyields
          obtain ⟨first, middle, -, hrest⟩ := yields_binary.mp hyields
          exact hloop first middle hrest
      | some first => exact fun hyields => hloop first stream (yields_binary_some.mp hyields)

/-- A name and a parenthesis behind it are no row at precedence zero: the parenthesis is taken for
an operator, and what stands behind it is not even a token. -/
theorem binary_zero_takes_parenthesis :
    let a : Token := ⟨.name, some "a", 0, 1⟩
    let behind : Upcoming := .stuck (.about .unrecognizedToken 2 3) 2
    let middle : TokenStream := ⟨⟨.symbol .parenClose, none, 1, 2⟩, 2, behind⟩
    let start : TokenStream := ⟨a, 1, .token middle.buffered behind⟩
    ofSource (Source.ofString "main" "a)@") = .ok start ∧
      Yields ((bounded none 3).read none .unary) start (.name a "a") middle ∧
      Row (bounded none 3) none middle [] middle ∧ NoOperator 0 middle ∧
      ∀ depth tree last, ¬ Yields ((bounded none depth).read none (.binary 0 none)) start tree
        last := by
  intro a behind middle start
  have hhands : start.Hands a middle := ⟨rfl, rfl⟩
  refine ⟨by decide +kernel, yields_unary_of_name rfl hhands (by decide), .nil middle, ?_, ?_⟩
  · intro operator precedence hbinary
    simp [middle, Token.binary?, Symbol.precedence?] at hbinary
  · exact fun depth tree last => not_yields_binary_zero

end ClassLang.Level
