import ClassLang.Proofs.Reading.Inheritance
import ClassLang.Proofs.Reading.Rounds

/-! # Reading is local

What is read depends on the tokens that are taken and on the one that is shown when reading ends,
and on nothing behind it. Where reading ends with a token taken for its own sake, such as a closing
brace, it does not even depend on what is shown after it.
-/

namespace ClassLang

open TokenStream

variable {stream stream' middle next next' : TokenStream} {front back : List Token}

/-- Where the same tokens lead to streams that show the same, they lead there by streams that show
the same. -/
theorem TokenStream.Passes.split_alike (hback : middle.Passes back next)
    (hpasses : stream'.Passes (front ++ back) next') (hshown : next'.buffered = next.buffered) :
    ∃ middle', stream'.Passes front middle' ∧ middle'.Passes back next' ∧
      middle'.buffered = middle.buffered := by
  obtain ⟨middle', hfront, hback'⟩ := Passes.append_iff.mp hpasses
  refine ⟨middle', hfront, hback', ?_⟩
  rw [hback'.headD_buffered, hback.headD_buffered, hshown]

namespace Parser

variable {α β : Type} {parser : Parser α} {value : α}

/-- The tokens are what the parser takes to yield the value, if it is then shown this one. -/
def Takes (parser : Parser α) (front : List Token) (shown : Token) (value : α) : Prop :=
  ∀ stream next, stream.Passes front next → next.buffered = shown → Yields parser stream value next

/-- What the parser yields it yields for the tokens it has taken. -/
def Local (parser : Parser α) : Prop :=
  ∀ stream value next, Yields parser stream value next →
    ∃ front, stream.Passes front next ∧ Takes parser front next.buffered value

namespace Local

variable {step : Parser (Option α)} {extension : α → Parser (Option α)}

/-- A reading that takes nothing depends on what is shown. -/
theorem of_shown (hshown : ∀ stream value next, Yields parser stream value next → next = stream ∧
      ∀ stream', stream'.buffered = stream.buffered → Yields parser stream' value stream') :
    Local parser := by
  intro stream value next hyields
  obtain ⟨rfl, hagain⟩ := hshown stream value next hyields
  refine ⟨[], .nil _, fun stream' next' hpasses hbuffered => ?_⟩
  obtain rfl := Passes.nil_iff.mp hpasses
  exact hagain _ hbuffered

theorem pure : Local (Pure.pure value : Parser α) :=
  of_shown fun _ _ _ hyields => ⟨(yields_pure.mp hyields).2, fun _ _ =>
    yields_pure.mpr ⟨(yields_pure.mp hyields).1, rfl⟩⟩

theorem peek : Local peek :=
  of_shown fun _ _ _ hyields => ⟨(yields_peek.mp hyields).2, fun _ hbuffered =>
    yields_peek.mpr ⟨(yields_peek.mp hyields).1.trans hbuffered.symm, rfl⟩⟩

theorem bind {continuation : α → Parser β} (hparser : Local parser)
    (hrest : ∀ value, Local (continuation value)) : Local (parser >>= continuation) := by
  intro stream result next hyields
  obtain ⟨value, middle, hvalue, hresult⟩ := yields_bind.mp hyields
  obtain ⟨front, hfront, htakes⟩ := hparser _ _ _ hvalue
  obtain ⟨back, hback, htakes'⟩ := hrest value _ _ _ hresult
  refine ⟨front ++ back, hfront.append hback, fun stream' next' hpasses hshown => ?_⟩
  obtain ⟨middle', hfront', hback', hmiddle⟩ := hback.split_alike hpasses hshown
  exact yields_bind.mpr ⟨value, middle', htakes _ _ hfront' hmiddle, htakes' _ _ hback' hshown⟩

theorem map {f : α → β} (hparser : Local parser) : Local (f <$> parser) := by
  rw [← bind_pure_comp]
  exact hparser.bind fun _ => .pure

theorem advance : Local Parser.advance := by
  intro stream token next hyields
  by_cases hend : stream.buffered.kind = .endOfText
  · obtain ⟨rfl, rfl⟩ := hyields.unique (advance_of_atEnd (decide_eq_true hend))
    -- the end of the text is handed out, but not passed over
    refine ⟨[], .nil _, fun stream' next' hpasses hshown => ?_⟩
    obtain rfl := Passes.nil_iff.mp hpasses
    rw [← hshown] at hend ⊢
    exact advance_of_atEnd (decide_eq_true hend)
  · have hhands := (yields_advance hend).mp hyields
    refine ⟨[token], .single hhands, fun stream' next' hpasses _ => ?_⟩
    have hhands' := Passes.singleton_iff.mp hpasses
    have hopen : stream'.buffered.kind ≠ .endOfText := hhands'.buffered_eq ▸ hhands'.kind_ne
    exact (yields_advance hopen).mpr hhands'

/-- A step has taken tokens if less is left, and only then. -/
theorem progress_iff (hpasses : stream.Passes front next) :
    next.remaining < stream.remaining ↔ front ≠ [] := by
  refine ⟨fun hprogress => ?_, hpasses.remaining_lt⟩
  rintro rfl
  obtain rfl := Passes.nil_iff.mp hpasses
  exact Nat.lt_irrefl _ hprogress

theorem iterate (hextension : ∀ value, Local (extension value)) :
    Local (Parser.iterate extension value) := by
  intro stream result next hyields
  unfold Yields at hyields
  fun_induction Parser.iterate extension value stream with
  | case1 => cases hyields
  | case2 value stream after hstops =>
      obtain ⟨rfl, rfl⟩ := EStateM.Result.ok.inj hyields
      obtain ⟨front, hfront, htakes⟩ := hextension _ _ _ _ hstops
      exact ⟨front, hfront, fun stream' next' hpasses hshown =>
        yields_iterate_stop (htakes _ _ hpasses hshown)⟩
  | case3 value stream extended after hextends hprogress ih =>
      obtain ⟨front, hfront, htakes⟩ := hextension _ _ _ _ hextends
      obtain ⟨back, hback, htakes'⟩ := ih hyields
      -- the same tokens are taken, so that this step makes progress there as well
      refine ⟨front ++ back, hfront.append hback, fun stream' next' hpasses hshown => ?_⟩
      obtain ⟨middle', hfront', hback', hmiddle⟩ := hback.split_alike hpasses hshown
      have hprogress' := (progress_iff hfront').mpr ((progress_iff hfront).mp hprogress)
      exact yields_iterate_next (htakes _ _ hfront' hmiddle) hprogress' (htakes' _ _ hback' hshown)
  | case4 value stream extended after hextends hstuck =>
      obtain ⟨rfl, rfl⟩ := EStateM.Result.ok.inj hyields
      obtain ⟨front, hfront, htakes⟩ := hextension _ _ _ _ hextends
      refine ⟨front, hfront, fun stream' next' hpasses hshown => ?_⟩
      have hstuck' :=
        (not_congr (progress_iff hpasses)).mpr ((not_congr (progress_iff hfront)).mp hstuck)
      have hextends' := htakes _ _ hpasses hshown
      unfold Yields at hextends' ⊢
      unfold Parser.iterate
      simp only [hextends', hstuck', dif_neg, not_false_eq_true]

theorem many (hstep : Local step) : Local (Parser.many step) := by
  rw [many_eq_iterate]
  exact .iterate fun _ => hstep.map

end Local

/-- The relation of a parser that reads locally to itself. -/
def SameLocal (parser other : Parser α) : Prop := parser = other ∧ Local parser

theorem inherited_local : Inherited SameLocal where
  pure _ := ⟨rfl, .pure⟩
  fail _ := ⟨rfl, fun _ _ _ hyields => absurd hyields not_yields_throw⟩
  bind := by
    rintro _ _ parser _ continuation rest ⟨rfl, hparser⟩ hrest
    obtain rfl : continuation = rest := funext fun value => (hrest value).1
    exact ⟨rfl, hparser.bind fun value => (hrest value).2⟩
  peek := ⟨rfl, .peek⟩
  advance := ⟨rfl, .advance⟩
  iterate := by
    intro _ step extension value hstep
    obtain rfl : step = extension := funext fun value => (hstep value).1
    exact ⟨rfl, .iterate fun value => (hstep value).2⟩
  many := by
    rintro _ step _ ⟨rfl, hstep⟩
    exact ⟨rfl, .many hstep⟩

/-! ## The last token -/

/-- Take the next token and yield the value. -/
def closing (value : α) : Parser α := (fun _ => value) <$> advance

/-- The value is read up to a last token, which is taken without a look at what follows. -/
def ClosesAt (parser : Parser α) (stream : TokenStream) (value : α) (next : TokenStream) : Prop :=
  ∃ front middle token, stream.Passes front middle ∧ middle.Hands token next ∧
    ∀ stream' middle', stream'.Passes front middle' → middle'.buffered = token →
      parser stream' = closing value middle'

/-- Whatever the parser yields ends with such a token. -/
def Closes (parser : Parser α) : Prop :=
  ∀ stream value next, Yields parser stream value next → ClosesAt parser stream value next

theorem closing_apply (value : α) (stream : TokenStream) :
    closing value stream = match advance stream with
      | .ok _ next => .ok value next
      | .error failure next => .error failure next := by
  rw [closing, map_apply]
  cases advance stream <;> rfl

theorem map_closing (f : α → β) (value : α) : f <$> closing value = closing (f value) := by
  rw [closing, Functor.map_map]
  rfl

theorem ClosesAt.map {f : α → β} (hcloses : ClosesAt parser stream value next) :
    ClosesAt (f <$> parser) stream (f value) next := by
  obtain ⟨front, middle, token, hfront, hhands, hsame⟩ := hcloses
  refine ⟨front, middle, token, hfront, hhands, fun stream' middle' hpasses hshown => ?_⟩
  rw [← map_closing, map_apply, map_apply, hsame _ _ hpasses hshown]

/-- More may be read before, as long as reading then goes on in the same way. -/
theorem ClosesAt.after {whole : Parser α} (hfront : stream.Passes front middle)
    (hcloses : ClosesAt parser middle value next)
    (hwhole : ∀ stream' middle', stream'.Passes front middle' →
      middle'.buffered = middle.buffered → whole stream' = parser middle') :
    ClosesAt whole stream value next := by
  obtain ⟨back, last, token, hback, hhands, hsame⟩ := hcloses
  refine ⟨front ++ back, last, token, hfront.append hback, hhands,
    fun stream' last' hpasses hshown => ?_⟩
  obtain ⟨middle', hfront', hback', hmiddle⟩ :=
    hback.split_alike hpasses (hshown.trans hhands.buffered_eq.symm)
  rw [hwhole _ _ hfront' hmiddle]
  exact hsame _ _ hback' hshown

theorem Closes.map {f : α → β} (hparser : Closes parser) : Closes (f <$> parser) := by
  intro stream result next hyields
  obtain ⟨value, hvalue, rfl⟩ := yields_map.mp hyields
  exact (hparser _ _ _ hvalue).map

/-- What is read before does not matter. -/
theorem Local.bind_closes {continuation : α → Parser β} (hparser : Local parser)
    (hrest : ∀ value, Closes (continuation value)) : Closes (parser >>= continuation) := by
  intro stream result next hyields
  obtain ⟨value, middle, hvalue, hresult⟩ := yields_bind.mp hyields
  obtain ⟨front, hfront, htakes⟩ := hparser _ _ _ hvalue
  exact .after hfront (hrest value _ _ _ hresult) fun _ _ hpasses hshown =>
    bind_of_yields (htakes _ _ hpasses hshown)

section Many

variable {step : Parser (Option α)}

theorem many_of_yields (hstep : Yields step stream (some value) next)
    (hprogress : next.remaining < stream.remaining) :
    many step stream = ((value :: ·) <$> many step) next := by
  unfold Yields at hstep
  rw [many, map_apply]
  simp only [hstep, hprogress, dif_pos]
  cases many step next <;> rfl

theorem many_of_closing (hstep : step stream = closing none stream) :
    many step stream = closing [] stream := by
  rw [many, hstep, closing_apply, closing_apply]
  cases advance stream <;> rfl

/-- A repetition that stops at a token which it takes. -/
theorem Closes.many (hlocal : Local step)
    (hprogress : ∀ stream value next, Yields step stream (some value) next →
      next.remaining < stream.remaining)
    (hstop : ∀ stream next, Yields step stream none next → ∃ token, stream.Hands token next ∧
      ∀ stream', stream'.buffered = token → step stream' = closing none stream') :
    Closes (many step) := by
  intro stream values next hyields
  refine hyields.many_induction (motive := ClosesAt (Parser.many step)) hprogress ?_ ?_
  · intro stream next hstep
    obtain ⟨token, hhands, hcloses⟩ := hstop _ _ hstep
    refine ⟨[], stream, token, .nil _, hhands, fun stream' middle' hpasses hshown => ?_⟩
    obtain rfl := Passes.nil_iff.mp hpasses
    exact many_of_closing (hcloses _ hshown)
  · intro stream value middle values next hstep hcloses
    obtain ⟨front, hfront, htakes⟩ := hlocal _ _ _ hstep
    refine .after hfront hcloses.map fun stream' middle' hpasses hshown => ?_
    have hprogress' := (Local.progress_iff hpasses).mpr
      ((Local.progress_iff hfront).mp (hprogress _ _ _ hstep))
    exact many_of_yields (htakes _ _ hpasses hshown) hprogress'

end Many

end Parser

/-- Every rule reads locally. -/
theorem Level.local_bounded (digits : Option Nat) (depth : Nat) :
    (bounded digits depth).Inherits Parser.SameLocal (bounded digits depth) :=
  inherits_bounded Parser.inherited_local digits depth

end ClassLang
