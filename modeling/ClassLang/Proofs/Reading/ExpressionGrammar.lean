import ClassLang.Proofs.Reading.ExpressionComplete

/-! # Reading a whole expression

A text is read as an expression if and only if its tokens derive the tree that
is returned, the limits aside. The grammar is unambiguous: that two trees are
derived from the same tokens is refuted by reading the tokens.
-/

namespace ClassLang

open TokenStream ClassLang.Parser Syntax Filter

namespace Syntax.Derives

variable {enclosing : Option String} {ts : List Token}

theorem kind_ne {phrase : Phrase} (hderives : Derives enclosing phrase ts) :
    ∀ token ∈ ts, token.kind ≠ .endOfText := by
  induction hderives <;> simp_all [or_imp]

/-- At every sufficient depth an expression is read where no more of it can follow. -/
theorem eventually_reads {digits : Option Nat} {tree : Expr Token}
    (hderives : Derives enclosing (.assignment tree) ts)
    (hfits : ∀ token ∈ ts, token.Fits digits) :
    ∀ᶠ depth in atTop, (Level.bounded digits depth).Reads enclosing (.expression none) ts tree
      (·.tightness < 1) :=
  eventually_of_further 1 (Level.covers_of_derives hderives hfits)

theorem fits_none : ∀ token ∈ ts, token.Fits none := fun _ _ _ => rfl

/-- The same tokens have one tree. -/
theorem unique {tree other : Expr Token} (htree : Derives enclosing (.assignment tree) ts)
    (hother : Derives enclosing (.assignment other) ts) : tree = other := by
  obtain ⟨depth, hread, hread'⟩ :=
    ((htree.eventually_reads fits_none).and (hother.eventually_reads fits_none)).exists
  have hpasses := passes_ofTokens htree.kind_ne
  exact ((hread _ _ hpasses (by decide)).unique (hread' _ _ hpasses (by decide))).1

end Syntax.Derives

/-! ## Whole texts -/

/-- Whether reading fails for the given reason can be decided, whatever is read. -/
instance {α : Type} {failure : Failure} :
    (reading : Except Failure α) → Decidable (reading = .error failure)
  | .ok _ => .isFalse nofun
  | .error other => decidable_of_iff (other = failure) (by rw [Except.error.injEq])

theorem Parser.run_eq_ok_iff {α : Type} {parser : Parser α} {source : Source} {value : α} :
    parser.run source = .ok value ↔
      ∃ start last, ofSource source = .ok start ∧ Yields parser start value last := by
  unfold Parser.run Yields
  cases ofSource source with
  | error error => simp
  | ok start => cases hparser : parser start <;> simp [hparser]

theorem Parser.run_eq_error {α : Type} {parser : Parser α} {source : Source}
    {start last : TokenStream} {failure : Failure} (hstart : ofSource source = .ok start)
    (herror : parser start = .error failure last) : parser.run source = .error failure := by
  simp [Parser.run, hstart, herror]

/-- Of a text, too, the other parser says the same, unless this one fails for an excuse. -/
theorem Parser.Approximates.run {α : Type} {excused : Failure → Prop} {parser other : Parser α}
    (happrox : Approximates excused parser other) (source : Source) :
    (∃ failure, parser.run source = .error failure ∧ excused failure) ∨
      parser.run source = other.run source := by
  unfold Parser.run
  cases ofSource source with
  | error error => exact .inr rfl
  | ok start =>
      rcases happrox start with ⟨failure, last, herror, hexcused⟩ | heq
      · exact .inl ⟨failure, by simp [herror], hexcused⟩
      · exact .inr (by simp [heq])

theorem Level.yields_wholeExpression {level : Level} {stream next : TokenStream}
    {tree : Expr Token} :
    Yields level.wholeExpression stream tree next ↔
      Yields (level.read none (.expression none)) stream tree next ∧ next.atEnd := by
  simp only [wholeExpression, yields_bind, yields_expect_end, yields_pure]
  constructor
  · rintro ⟨_, _, htree, _, _, ⟨hend, rfl, rfl⟩, rfl, rfl⟩
    exact ⟨htree, hend⟩
  · rintro ⟨htree, hend⟩
    exact ⟨tree, next, htree, _, next, ⟨hend, rfl, rfl⟩, rfl, rfl⟩

namespace Expr

variable {source : Source} {tokens : List Token} {last : Token}

/-- The tree that is read is derived from the tokens of the text. -/
theorem derives_of_readWithin {depth : Nat} {tree : Expr Token}
    (htokens : TokenStream.tokens source = .ok (tokens ++ [last]))
    (hread : Expr.readWithin depth source = .ok tree) :
    Derives none (.assignment tree) tokens := by
  obtain ⟨start, final, front, hstart, hfront, hfinal, heq⟩ := tokens_eq_ok_iff.mp htokens
  obtain ⟨rfl, -⟩ := List.append_inj' heq rfl
  obtain ⟨start', after, hstart', hyields⟩ := run_eq_ok_iff.mp hread
  obtain rfl := Except.ok.inj (hstart.symm.trans hstart')
  obtain ⟨htree, hend⟩ := Level.yields_wholeExpression.mp hyields
  obtain ⟨ts, hts, hderives⟩ :=
    (Level.bounded_soundExpressions _ depth none).expression _ _ _ htree
  obtain ⟨rfl, -⟩ := hts.to_end_unique hend hfront hfinal
  exact hderives

/-- An answer other than that rules nest too deep is the answer at every greater depth. -/
theorem readWithin_deeper {depth deeper : Nat} (hle : depth ≤ deeper) (source : Source) :
    (∃ failure, Expr.readWithin depth source = .error failure ∧ failure.IsNesting) ∨
      Expr.readWithin depth source = Expr.readWithin deeper source :=
  (Level.bounded_approximates hle).wholeExpression.run source

/-- A text is read as the tree that its tokens are read as. -/
theorem run_wholeExpression {level : Level} {tree : Expr Token}
    (htokens : TokenStream.tokens source = .ok (tokens ++ [last]))
    (hreads : level.Reads none (.expression none) tokens tree (·.tightness < 1)) :
    level.wholeExpression.run source = .ok tree := by
  obtain ⟨start, final, front, hstart, hfront, hfinal, heq⟩ := tokens_eq_ok_iff.mp htokens
  obtain ⟨rfl, -⟩ := List.append_inj' heq rfl
  have hend : final.buffered.tightness < 1 := by
    have hkind : final.buffered.kind = .endOfText := of_decide_eq_true hfinal
    simp [Token.tightness, hkind]
  have hyields := Level.yields_wholeExpression.mpr ⟨hreads _ _ hfront hend, hfinal⟩
  exact run_eq_ok_iff.mpr ⟨start, final, hstart, hyields⟩

/-- A derived tree is read at every depth at which no limit is met. -/
theorem readWithin_of_derives {depth : Nat} {tree : Expr Token}
    (htokens : TokenStream.tokens source = .ok (tokens ++ [last]))
    (hlimit : ∀ failure, Expr.readWithin depth source = .error failure → ¬ failure.IsLimit)
    (hderives : Derives none (.assignment tree) tokens) :
    Expr.readWithin depth source = .ok tree := by
  obtain ⟨deeper, hread, hle⟩ := ((hderives.eventually_reads Derives.fits_none).and
    (eventually_ge_atTop depth)).exists
  have happrox := (Level.bounded_approximates_none (some Failure.integerDigits) depth)
    |>.wholeExpression.trans
      ((Level.bounded_approximates hle).wholeExpression.mono fun _ => Or.inl)
  rcases happrox.run source with ⟨failure, herror, hexcused⟩ | heq
  · exact absurd hexcused (hlimit failure herror)
  · exact heq.trans (run_wholeExpression htokens hread)

/-- Where no limit is met, a text is read as the tree that its tokens derive, and no sequence of
tokens derives more than one. -/
theorem read_iff_unique_derivation (htokens : TokenStream.tokens source = .ok (tokens ++ [last]))
    (hlimit : ∀ failure, Expr.read source = .error failure → ¬ failure.IsLimit) :
    (∀ tree, Expr.read source = .ok tree ↔ Derives none (.assignment tree) tokens) ∧
      ∀ enclosing ts tree other, Derives enclosing (.assignment tree) ts →
        Derives enclosing (.assignment other) ts → tree = other :=
  ⟨fun _ => ⟨derives_of_readWithin htokens, readWithin_of_derives htokens hlimit⟩,
    fun _ _ _ _ htree hother => htree.unique hother⟩

/-- A call with a choice among its arguments is read, and its tokens have no other tree. -/
theorem read_choice_in_call :
    let source := Source.ofString "main" "f(a ? 1 : -b)"
    let tokens : List Token :=
      [⟨.name, some "f", 0, 1⟩, ⟨.symbol .parenOpen, none, 1, 2⟩, ⟨.name, some "a", 2, 3⟩,
        ⟨.symbol .question, none, 4, 5⟩, ⟨.int, some "1", 6, 7⟩, ⟨.symbol .colon, none, 8, 9⟩,
        ⟨.symbol .minus, none, 10, 11⟩, ⟨.name, some "b", 11, 12⟩,
        ⟨.symbol .parenClose, none, 12, 13⟩]
    (Expr.read source).isOk = true ∧
      (∀ tree, Expr.read source = .ok tree ↔ Derives none (.assignment tree) tokens) ∧
      ∀ enclosing ts tree other, Derives enclosing (.assignment tree) ts →
        Derives enclosing (.assignment other) ts → tree = other := by
  intro source tokens
  have hread : (Expr.read source).isOk = true := by decide +kernel
  refine ⟨hread, @read_iff_unique_derivation source tokens (.endOfText 13) (by decide +kernel) ?_⟩
  intro failure herror
  simp [herror, Except.isOk, Except.toBool] at hread

end Expr

end ClassLang
