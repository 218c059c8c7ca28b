import ClassLang.Proofs.Reading.Outcome
import ClassLang.Proofs.Syntax.List

/-! # Reading lists

The parsers of lists read the lists of the grammar, and nothing else: if every
item that is read is one of the grammar, so is the list, and a list of the
grammar is read if its items are.
-/

namespace ClassLang.Parser

open TokenStream Syntax

variable {α : Type} {item : Parser α} {phrase : List Token → α → Prop}
  {stream next last : TokenStream} {tokens : List Token} {values : List α}

/-- Every value that the parser yields comes from tokens that are such a phrase. -/
def Sound (parser : Parser α) (phrase : List Token → α → Prop) : Prop :=
  ∀ stream value next, Yields parser stream value next →
    ∃ tokens, stream.Passes tokens next ∧ phrase tokens value

/-- The parser reads such a phrase where the token after it is as required. -/
def Complete (parser : Parser α) (phrase : List Token → α → Prop) (follow : Token → Prop) : Prop :=
  ∀ tokens value, phrase tokens value → ∀ stream next, stream.Passes tokens next →
    follow next.buffered → Yields parser stream value next

/-- No such phrase is empty, and its first token is as said. -/
def Starts (phrase : List Token → α → Prop) (first : Token → Prop) : Prop :=
  ∀ tokens value, phrase tokens value → ∃ token rest, tokens = token :: rest ∧ first token

/-! ## Commas -/

theorem yields_commaSeparated :
    Yields (commaSeparated item) stream values next ↔
      ∃ first middle, Yields item stream first middle ∧
        ∃ rest, Yields (many do
            if (← take? (.symbol .comma)).isSome then some <$> item else return none)
          middle rest next ∧ values = first :: rest := by
  simp [commaSeparated]

theorem yields_afterComma {taken : Option α} :
    Yields (do if (← take? (.symbol .comma)).isSome then some <$> item else return none)
        stream taken next ↔
      (stream.buffered.kind ≠ .symbol .comma ∧ taken = none ∧ next = stream) ∨
        ∃ comma, comma.kind = .symbol .comma ∧ ∃ middle, stream.Hands comma middle ∧
          ∃ value, Yields item middle value next ∧ taken = some value := by
  simp [yields_take?_bind]

theorem Sound.commaSeparated (hitem : Sound item phrase) :
    Sound (commaSeparated item) (CommaSeparated phrase) := by
  intro stream values next hyields
  obtain ⟨first, middle, hfirst, rest, hrest, rfl⟩ := yields_commaSeparated.mp hyields
  obtain ⟨ts, hts, hphrase⟩ := hitem _ _ _ hfirst
  -- What follows a first item is a comma-separated list with it, whatever the item is.
  have htail : ∃ us, middle.Passes us next ∧
      ∀ ts first, phrase ts first → CommaSeparated phrase (ts ++ us) (first :: rest) := by
    refine hrest.many_induction
      (motive := fun middle rest next => ∃ us, middle.Passes us next ∧
        ∀ ts first, phrase ts first → CommaSeparated phrase (ts ++ us) (first :: rest)) ?_ ?_ ?_
    · intro stream value next hstep
      obtain ⟨_, h, _⟩ | ⟨comma, _, middle, hhands, value', hvalue, _⟩ := yields_afterComma.mp hstep
      · simp at h
      · obtain ⟨us, hus, _⟩ := hitem _ _ _ hvalue
        exact Nat.lt_of_le_of_lt hus.remaining_le hhands.remaining_lt
    · intro stream next hstep
      obtain ⟨_, _, rfl⟩ | ⟨_, _, _, _, _, _, h⟩ := yields_afterComma.mp hstep
      · exact ⟨[], .nil _, fun ts first hfirst => by simpa using .single hfirst⟩
      · simp at h
    · intro stream value middle values next hstep hrest
      obtain ⟨_, h, _⟩ | ⟨comma, hcomma, after, hhands, value', hvalue, hsome⟩ :=
        yields_afterComma.mp hstep
      · simp at h
      · obtain rfl := Option.some.inj hsome
        obtain ⟨us, hus, hitem'⟩ := hitem _ _ _ hvalue
        obtain ⟨vs, hvs, htail⟩ := hrest
        refine ⟨comma :: us ++ vs, .cons hhands (hus.append hvs), fun ts first hfirst => ?_⟩
        exact .more hfirst hcomma (htail us value hitem')
  obtain ⟨us, hus, htail⟩ := htail
  exact ⟨ts ++ us, hts.append hus, htail ts first hphrase⟩

theorem Complete.commaSeparated {follow : Token → Prop} (hitem : Complete item phrase follow)
    (hcomma : ∀ token, token.kind = .symbol .comma → follow token) :
    Complete (commaSeparated item) (CommaSeparated phrase)
      fun token => follow token ∧ token.kind ≠ .symbol .comma := by
  intro tokens values hlist stream next hpasses hfollow
  suffices hparts : ∃ first middle rest, Yields item stream first middle ∧
      middle.remaining ≤ stream.remaining ∧ Yields (many do
        if (← take? (.symbol .comma)).isSome then some <$> item else return none) middle rest next ∧
      values = first :: rest by
    obtain ⟨first, middle, rest, hfirst, _, hrest, rfl⟩ := hparts
    exact yields_commaSeparated.mpr ⟨first, middle, hfirst, rest, hrest, rfl⟩
  induction hlist generalizing stream with
  | @single ts value hphrase =>
      refine ⟨value, next, [], hitem _ _ hphrase _ _ hpasses hfollow.1, hpasses.remaining_le, ?_, rfl⟩
      exact yields_many_stop (yields_afterComma.mpr (.inl ⟨hfollow.2, rfl, rfl⟩))
  | @more ts value comma us values hphrase hkind _ ih =>
      obtain ⟨middle, hts, after, hhands, hus⟩ := Passes.append_cons_iff.mp hpasses
      obtain ⟨first, last, rest, hfirst, hle, hmany, rfl⟩ := ih after hus
      have hstep := yields_afterComma.mpr (.inr ⟨comma, hkind, after, hhands, first, hfirst, rfl⟩)
      exact ⟨value, middle, first :: rest,
        hitem _ _ hphrase _ _ hts (hcomma _ (hhands.buffered_eq ▸ hkind)), hts.remaining_le,
        yields_many_next hstep (Nat.lt_of_le_of_lt hle hhands.remaining_lt) hmany, rfl⟩

/-! ## Parentheses -/

theorem yields_parenthesizedList :
    Yields (parenthesizedList item) stream values next ↔
      ∃ opening, opening.kind = .symbol .parenOpen ∧ ∃ s₁, stream.Hands opening s₁ ∧
        ((∃ closing, closing.kind = .symbol .parenClose ∧ s₁.Hands closing next ∧ values = []) ∨
          s₁.buffered.kind ≠ .symbol .parenClose ∧
            ∃ s₂, Yields (commaSeparated item) s₁ values s₂ ∧
              ∃ closing, closing.kind = .symbol .parenClose ∧ s₂.Hands closing next) := by
  rw [parenthesizedList, yields_expectSymbol_bind]
  simp only [yields_take?_bind (show Kind.symbol .parenClose ≠ .endOfText by simp), Option.isSome_none,
    Option.isSome_some, Bool.false_eq_true, if_false, if_true, yields_pure]
  simp only [yields_bind, yields_expectSymbol, yields_pure]
  constructor
  · rintro ⟨opening, s₁, hopening, hhands, ⟨hshown, hitems⟩ | hempty⟩
    · obtain ⟨items, s₂, hvalues, closing, _, ⟨hclosing, hhands'⟩, rfl, rfl⟩ := hitems
      exact ⟨opening, hopening, s₁, hhands, .inr ⟨hshown, s₂, hvalues, closing, hclosing, hhands'⟩⟩
    · obtain ⟨closing, _, hclosing, hhands', rfl, rfl⟩ := hempty
      exact ⟨opening, hopening, s₁, hhands, .inl ⟨closing, hclosing, hhands', rfl⟩⟩
  · rintro ⟨opening, hopening, s₁, hhands, ⟨closing, hclosing, hhands', rfl⟩ | hitems⟩
    · exact ⟨opening, s₁, hopening, hhands, .inr ⟨closing, next, hclosing, hhands', rfl, rfl⟩⟩
    · obtain ⟨hshown, s₂, hvalues, closing, hclosing, hhands'⟩ := hitems
      exact ⟨opening, s₁, hopening, hhands,
        .inl ⟨hshown, values, s₂, hvalues, closing, next, ⟨hclosing, hhands'⟩, rfl, rfl⟩⟩

theorem Sound.parenthesizedList (hitem : Sound item phrase) :
    Sound (parenthesizedList item) (Parenthesized phrase) := by
  intro stream values next hyields
  obtain ⟨opening, hopening, s₁, hhands, hitems⟩ := yields_parenthesizedList.mp hyields
  obtain ⟨closing, hclosing, hhands', rfl⟩ | ⟨_, s₂, hvalues, closing, hclosing, hhands'⟩ := hitems
  · exact ⟨[opening, closing], .cons hhands (.single hhands'), .empty hopening hclosing⟩
  · obtain ⟨ts, hts, hlist⟩ := hitem.commaSeparated _ _ _ hvalues
    exact ⟨opening :: ts ++ [closing], .cons hhands (hts.append (.single hhands')),
      .items hopening hlist hclosing⟩

theorem Starts.commaSeparated {first : Token → Prop} (hstart : Starts phrase first) :
    Starts (CommaSeparated phrase) first := by
  intro tokens values hlist
  cases hlist with
  | single hitem => exact hstart _ _ hitem
  | more hitem =>
      obtain ⟨token, rest, rfl, hfirst⟩ := hstart _ _ hitem
      exact ⟨token, _, rfl, hfirst⟩

theorem Complete.parenthesizedList (follow : Token → Prop) (hitem : Complete item phrase follow)
    (hcomma : ∀ token, token.kind = .symbol .comma → follow token)
    (hclose : ∀ token, token.kind = .symbol .parenClose → follow token)
    (hstart : Starts phrase (·.kind ≠ .symbol .parenClose)) :
    Complete (parenthesizedList item) (Parenthesized phrase) fun _ => True := by
  intro tokens values hlist stream next hpasses _
  cases hlist with
  | empty hopening hclosing =>
      obtain ⟨s₁, hhands, hrest⟩ := Passes.cons_iff.mp hpasses
      have hhands' := Passes.singleton_iff.mp hrest
      exact yields_parenthesizedList.mpr ⟨_, hopening, s₁, hhands, .inl ⟨_, hclosing, hhands', rfl⟩⟩
  | items hopening hitems hclosing =>
      obtain ⟨s₁, hhands, hrest⟩ := Passes.cons_iff.mp hpasses
      obtain ⟨s₂, hts, hrest⟩ := Passes.append_iff.mp hrest
      have hhands' := Passes.singleton_iff.mp hrest
      have hshown : s₁.buffered.kind ≠ .symbol .parenClose := by
        obtain ⟨token, rest, rfl, hkind⟩ := hstart.commaSeparated _ _ hitems
        rwa [hts.buffered_eq]
      have hnext := hhands'.buffered_eq ▸ hclosing
      refine yields_parenthesizedList.mpr ⟨_, hopening, s₁, hhands, .inr ⟨hshown, s₂, ?_, _,
        hclosing, hhands'⟩⟩
      exact hitem.commaSeparated hcomma _ _ hitems _ _ hts ⟨hclose _ hnext, by simp [hnext]⟩

/-! ## Items up to a closing token -/

section Until

variable {close : Kind}

theorem yields_untilStep {taken : Option α} (hclose : close ≠ .endOfText) :
    Yields (do if (← take? close).isSome then return none else some <$> item) stream taken next ↔
      (stream.buffered.kind ≠ close ∧ ∃ value, Yields item stream value next ∧
          taken = some value) ∨
        ∃ closing, closing.kind = close ∧ stream.Hands closing next ∧ taken = none := by
  simp [yields_take?_bind hclose]

theorem Sound.manyUntil (hclose : close ≠ .endOfText) (hitem : Sound item phrase)
    (hstart : Starts phrase fun _ => True) :
    Sound (manyUntil close item) fun tokens values =>
      ∃ items closing, tokens = items ++ [closing] ∧ closing.kind = close ∧
        Sequence phrase items values := by
  intro stream values next hyields
  refine Yields.many_induction
    (motive := fun stream values next => ∃ tokens, stream.Passes tokens next ∧
      ∃ items closing, tokens = items ++ [closing] ∧ closing.kind = close ∧
        Sequence phrase items values) ?_ ?_ ?_ hyields
  · intro stream value next hstep
    obtain ⟨_, value', hvalue, _⟩ | ⟨_, _, _, h⟩ := (yields_untilStep hclose).mp hstep
    · obtain ⟨ts, hts, hphrase'⟩ := hitem _ _ _ hvalue
      obtain ⟨token, rest, rfl, _⟩ := hstart _ _ hphrase'
      exact hts.remaining_lt (by simp)
    · simp at h
  · intro stream next hstep
    obtain ⟨_, _, _, h⟩ | ⟨closing, hkind, hhands, _⟩ := (yields_untilStep hclose).mp hstep
    · simp at h
    · exact ⟨[closing], .single hhands, [], closing, rfl, hkind, .nil⟩
  · intro stream value middle values next hstep hrest
    obtain ⟨_, value', hvalue, hsome⟩ | ⟨_, _, _, h⟩ := (yields_untilStep hclose).mp hstep
    · obtain rfl := Option.some.inj hsome
      obtain ⟨ts, hts, hphrase'⟩ := hitem _ _ _ hvalue
      obtain ⟨_, hus, items, closing, rfl, hkind, hitems⟩ := hrest
      exact ⟨_, hts.append hus, ts ++ items, closing, (List.append_assoc ..).symm, hkind,
        .cons hphrase' hitems⟩
    · simp at h

theorem Complete.manyUntil (follow : Token → Prop) (hclose : close ≠ .endOfText)
    (hitem : Complete item phrase follow)
    (hstart : Starts phrase fun token => token.kind ≠ close ∧ follow token)
    (hend : ∀ token, token.kind = close → follow token) :
    Complete (manyUntil close item) (fun tokens values =>
      ∃ items closing, tokens = items ++ [closing] ∧ closing.kind = close ∧
        Sequence phrase items values) fun _ => True := by
  rintro _ values ⟨items, closing, rfl, hkind, hitems⟩ stream next hpasses _
  induction hitems generalizing stream with
  | nil =>
      have hhands := Passes.singleton_iff.mp hpasses
      exact yields_many_stop ((yields_untilStep hclose).mpr (.inr ⟨closing, hkind, hhands, rfl⟩))
  | cons hphrase hitems ih =>
      rw [List.append_assoc] at hpasses
      obtain ⟨middle, hts, hrest⟩ := Passes.append_iff.mp hpasses
      obtain ⟨token, rest, rfl, hother, _⟩ := hstart _ _ hphrase
      -- What follows the item is another one or the closing token.
      have hfollow : follow middle.buffered := by
        cases hitems with
        | nil =>
            rw [hrest.buffered_eq]
            exact hend _ hkind
        | cons hnext =>
            obtain ⟨token', rest', rfl, _, hfollow⟩ := hstart _ _ hnext
            rwa [hrest.buffered_eq]
      have hvalue := hitem _ _ hphrase _ _ hts hfollow
      have hshown : stream.buffered.kind ≠ close := by rwa [hts.buffered_eq]
      exact yields_many_next
        ((yields_untilStep hclose).mpr (.inl ⟨hshown, _, hvalue, rfl⟩))
        (hts.remaining_lt (by simp)) (ih middle hrest)

end Until

end ClassLang.Parser
