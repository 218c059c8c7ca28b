import ClassLang.Grammar.Parser
import ClassLang.Proofs.Stream.Passage

/-! # What a parser yields

A parser that succeeds yields a value and leaves the rest of the stream. For
each way to build a parser one law says when it yields what, in terms of the
tokens that are handed out.
-/

namespace ClassLang.Parser

open TokenStream

/-- The parser succeeds on the stream with the value and leaves `next`. -/
def Yields {α : Type} (parser : Parser α) (stream : TokenStream) (value : α)
    (next : TokenStream) : Prop :=
  parser stream = .ok value next

variable {α β : Type} {parser other : Parser α} {stream middle next last : TokenStream}
  {value : α} {token : Token}

theorem eq_ok_of_mem_toOption {ε : Type} {result : Except ε α} (hvalue : value ∈ result.toOption) :
    result = .ok value := by
  cases result with
  | error => simp [Except.toOption] at hvalue
  | ok => simpa [Except.toOption] using hvalue

theorem Yields.unique {value' : α} {next' : TokenStream} (hyields : Yields parser stream value next)
    (hyields' : Yields parser stream value' next') : value = value' ∧ next = next' :=
  EStateM.Result.ok.inj (Eq.trans (Eq.symm hyields) hyields')

/-! ## Sequencing and choice -/

@[simp low] theorem yields_bind {continuation : α → Parser β} {result : β} :
    Yields (parser >>= continuation) stream result next ↔
      ∃ value middle, Yields parser stream value middle ∧
        Yields (continuation value) middle result next := by
  unfold Yields
  change EStateM.bind parser continuation stream = _ ↔ _
  unfold EStateM.bind
  cases parser stream with
  | ok value middle =>
      constructor
      · intro hresult
        exact ⟨value, middle, rfl, hresult⟩
      · rintro ⟨_, _, hvalue, hresult⟩
        obtain ⟨rfl, rfl⟩ := EStateM.Result.ok.inj hvalue
        exact hresult
  | error failure middle => simp

theorem bind_of_yields {continuation : α → Parser β} (hyields : Yields parser stream value middle) :
    (parser >>= continuation) stream = continuation value middle := by
  change EStateM.bind parser continuation stream = _
  rw [EStateM.bind, hyields]

theorem bind_of_error {continuation : α → Parser β} {failure : Failure}
    (hfails : parser stream = .error failure next) :
    (parser >>= continuation) stream = .error failure next := by
  change EStateM.bind parser continuation stream = _
  rw [EStateM.bind, hfails]

/-- Where two parsers answer alike, so do they with the same continuation. -/
theorem bind_congr_of_eq {continuation : α → Parser β} (heq : parser stream = other middle) :
    (parser >>= continuation) stream = (other >>= continuation) middle := by
  change EStateM.bind parser continuation stream = EStateM.bind other continuation middle
  rw [EStateM.bind, EStateM.bind, heq]

theorem map_apply (f : α → β) (parser : Parser α) (stream : TokenStream) :
    (f <$> parser) stream = match parser stream with
      | .ok value next => .ok (f value) next
      | .error failure next => .error failure next := by
  change EStateM.map f parser stream = _
  rw [EStateM.map]
  cases parser stream <;> rfl

@[simp] theorem yields_pure {result : α} :
    Yields (pure value) stream result next ↔ result = value ∧ next = stream := by
  constructor
  · intro hyields
    obtain ⟨rfl, rfl⟩ := EStateM.Result.ok.inj hyields
    exact ⟨rfl, rfl⟩
  · rintro ⟨rfl, rfl⟩
    rfl

@[simp] theorem yields_map {f : α → β} {result : β} :
    Yields (f <$> parser) stream result next ↔
      ∃ value, Yields parser stream value next ∧ result = f value := by
  rw [← bind_pure_comp, yields_bind]
  simp only [yields_pure]
  constructor
  · rintro ⟨value, middle, hvalue, rfl, rfl⟩
    exact ⟨value, hvalue, rfl⟩
  · rintro ⟨value, hvalue, rfl⟩
    exact ⟨value, next, hvalue, rfl, rfl⟩

@[simp] theorem yields_ite {p : Prop} [Decidable p] :
    Yields (if p then parser else other) stream value next ↔
      if p then Yields parser stream value next else Yields other stream value next := by
  split <;> rfl

@[simp] theorem not_yields_refuse {cause : GrammarCause} :
    ¬ Yields (refuse cause token : Parser α) stream value next := by
  intro hyields
  cases hyields

@[simp] theorem not_yields_throw {failure : Failure} :
    ¬ Yields (throw failure : Parser α) stream value next := by
  intro hyields
  cases hyields

/-! ## Taking tokens -/

@[simp] theorem yields_peek :
    Yields peek stream token next ↔ token = stream.buffered ∧ next = stream := by
  constructor
  · intro hyields
    obtain ⟨rfl, rfl⟩ := EStateM.Result.ok.inj hyields
    exact ⟨rfl, rfl⟩
  · rintro ⟨rfl, rfl⟩
    rfl

/-- The end of the text can be taken again and again. -/
theorem advance_of_atEnd (hend : stream.atEnd) : advance stream = .ok stream.buffered stream := by
  simp [advance, EStateM.adaptExcept, TokenStream.advance, hend]

/-- Another token is taken if the scan for the one after it succeeds. -/
theorem advance_of_scan (hopen : stream.atEnd = false) (hscan : scan stream.upcoming = .ok next) :
    advance stream = .ok stream.buffered next := by
  simp [advance, EStateM.adaptExcept, TokenStream.advance, hopen, hscan]

theorem advance_of_scan_error {error : LexicalError} {rest : Nat × Upcoming}
    (hopen : stream.atEnd = false) (hscan : scan stream.upcoming = .error (error, rest)) :
    advance stream = .error (.lexical error) ⟨stream.buffered, rest.1, rest.2⟩ := by
  simp [advance, EStateM.adaptExcept, TokenStream.advance, hopen, hscan]

theorem yields_advance (hend : stream.buffered.kind ≠ .endOfText) :
    Yields advance stream token next ↔ stream.Hands token next := by
  have hopen : stream.atEnd = false := by simpa [atEnd] using hend
  unfold Yields Hands Parser.advance EStateM.adaptExcept
  cases TokenStream.advance stream <;> simp [hopen]

@[simp] theorem yields_isAt {kind : Kind} {answer : Bool} :
    Yields (isAt kind) stream answer next ↔
      answer = decide (stream.buffered.kind = kind) ∧ next = stream := by
  unfold isAt
  simp only [yields_bind, yields_peek, yields_pure]
  constructor
  · rintro ⟨_, _, ⟨rfl, rfl⟩, rfl, rfl⟩
    exact ⟨rfl, rfl⟩
  · rintro ⟨rfl, rfl⟩
    exact ⟨_, _, ⟨rfl, rfl⟩, rfl, rfl⟩

/-- To take what passes a test is to hand out the next token if it passes, and else nothing. -/
theorem yields_takeIf (test : Token → Prop) [Decidable (test stream.buffered)]
    {taken : Option Token} (htest : ∀ token, test token → token.kind ≠ .endOfText) :
    (if test stream.buffered then Yields (some <$> advance) stream taken next
        else taken = none ∧ next = stream) ↔
      (taken = none ∧ next = stream ∧ ¬ test stream.buffered) ∨
        ∃ token, taken = some token ∧ test token ∧ stream.Hands token next := by
  split
  next hat =>
    rw [yields_map]
    constructor
    · rintro ⟨token, htoken, rfl⟩
      have hhands := (yields_advance (htest _ hat)).mp htoken
      exact .inr ⟨token, rfl, hhands.buffered_eq ▸ hat, hhands⟩
    · rintro (⟨_, _, hnot⟩ | ⟨token, rfl, _, hhands⟩)
      · exact absurd hat hnot
      · exact ⟨token, (yields_advance (htest _ hat)).mpr hhands, rfl⟩
  next hat =>
    constructor
    · rintro ⟨rfl, rfl⟩
      exact .inl ⟨rfl, rfl, hat⟩
    · rintro (⟨rfl, rfl, _⟩ | ⟨token, _, htoken, hhands⟩)
      · exact ⟨rfl, rfl⟩
      · exact absurd (hhands.buffered_eq ▸ htoken) hat

/-- Taking a token of a kind hands it out if it is there, and else takes nothing. -/
theorem yields_take? {kind : Kind} {taken : Option Token} (hkind : kind ≠ .endOfText) :
    Yields (take? kind) stream taken next ↔
      (taken = none ∧ next = stream ∧ stream.buffered.kind ≠ kind) ∨
        ∃ token, taken = some token ∧ token.kind = kind ∧ stream.Hands token next := by
  simp only [take?, yields_bind, yields_isAt, yields_ite, yields_pure, and_assoc,
    exists_and_left, exists_eq_left, decide_eq_true_eq]
  exact yields_takeIf (·.kind = kind) fun _ heq => heq ▸ hkind

/-- Taking one of several kinds. -/
theorem yields_takeAny? {kinds : List Kind} {taken : Option Token}
    (hkinds : Kind.endOfText ∉ kinds) :
    Yields (takeAny? kinds) stream taken next ↔
      (taken = none ∧ next = stream ∧ stream.buffered.kind ∉ kinds) ∨
        ∃ token, taken = some token ∧ token.kind ∈ kinds ∧ stream.Hands token next := by
  simp only [takeAny?, yields_bind, yields_peek, yields_ite, yields_pure, and_assoc,
    exists_and_left, exists_eq_left]
  exact yields_takeIf (·.kind ∈ kinds) fun _ hmem heq => hkinds (heq ▸ hmem)

/-- Taking a word, which is a name like any other elsewhere. -/
theorem yields_takeWord? {word : String} {taken : Option Token} :
    Yields (takeWord? word) stream taken next ↔
      (taken = none ∧ next = stream ∧
          ¬ (stream.buffered.kind = .name ∧ stream.buffered.data = some word)) ∨
        ∃ token, taken = some token ∧ (token.kind = .name ∧ token.data = some word) ∧
          stream.Hands token next := by
  simp only [takeWord?, isAtWord, yields_bind, yields_peek, yields_ite, yields_pure, and_assoc,
    exists_and_left, exists_eq_left, decide_eq_true_eq]
  simpa only [and_assoc] using
    yields_takeIf (fun token => token.kind = .name ∧ token.data = some word)
      fun _ hword => by simp [hword.1]

/-- Taking one of several symbols. -/
theorem yields_takeSymbol? {symbols : List Symbol} {taken : Option (Token × Symbol)} :
    Yields (takeSymbol? symbols) stream taken next ↔
      (taken = none ∧ next = stream ∧ ∀ symbol ∈ symbols, stream.buffered.kind ≠ .symbol symbol) ∨
        ∃ token symbol, taken = some (token, symbol) ∧ token.kind = .symbol symbol ∧
          symbol ∈ symbols ∧ stream.Hands token next := by
  simp only [takeSymbol?, yields_bind, yields_peek, and_assoc, exists_and_left, exists_eq_left]
  split
  next symbol hkind =>
    have hend : stream.buffered.kind ≠ .endOfText := by simp [hkind]
    simp only [yields_ite, yields_bind, yields_pure, yields_advance hend]
    split
    next hmem =>
      constructor
      · rintro ⟨token, middle, hhands, rfl, rfl⟩
        exact .inr ⟨token, symbol, rfl, hhands.buffered_eq ▸ hkind, hmem, hhands⟩
      · rintro (⟨_, _, hnot⟩ | ⟨token, other, rfl, htoken, _, hhands⟩)
        · exact absurd hkind (hnot symbol hmem)
        · rw [hhands.buffered_eq, htoken, Kind.symbol.injEq] at hkind
          exact ⟨token, next, hhands, by rw [hkind], rfl⟩
    next hmem =>
      constructor
      · rintro ⟨rfl, rfl⟩
        refine .inl ⟨rfl, rfl, fun other hother heq => hmem ?_⟩
        rw [hkind, Kind.symbol.injEq] at heq
        exact heq ▸ hother
      · rintro (⟨rfl, rfl, _⟩ | ⟨token, other, _, htoken, hother, hhands⟩)
        · exact ⟨rfl, rfl⟩
        · rw [hhands.buffered_eq, htoken, Kind.symbol.injEq] at hkind
          exact absurd (hkind ▸ hother) hmem
  next hkind =>
    rw [yields_pure]
    constructor
    · rintro ⟨rfl, rfl⟩
      exact .inl ⟨rfl, rfl, fun symbol _ heq => hkind symbol heq⟩
    · rintro (⟨rfl, rfl, _⟩ | ⟨token, symbol, _, htoken, _, hhands⟩)
      · exact ⟨rfl, rfl⟩
      · exact absurd (hhands.buffered_eq ▸ htoken) (hkind symbol)

/-- An expected token is handed out. -/
theorem yields_expect {kind : Kind} (hkind : kind ≠ .endOfText) :
    Yields (expect kind) stream token next ↔ token.kind = kind ∧ stream.Hands token next := by
  simp only [expect, yields_bind, yields_isAt, yields_ite, yields_peek, not_yields_refuse,
    and_assoc, exists_and_left, exists_eq_left, decide_eq_true_eq]
  split
  next hat =>
    rw [yields_advance (hat ▸ hkind)]
    exact ⟨fun hhands => ⟨hhands.buffered_eq ▸ hat, hhands⟩, And.right⟩
  next hat =>
    simp only [false_iff, not_and]
    exact fun htoken hhands => hat (hhands.buffered_eq ▸ htoken)

@[simp] theorem yields_expectSymbol {symbol : Symbol} :
    Yields (expectSymbol symbol) stream token next ↔
      token.kind = .symbol symbol ∧ stream.Hands token next :=
  yields_expect (by simp)

/-- Expecting a token for what it carries. -/
theorem yields_expectPayload {kind : Kind} {text : String} (hkind : kind ≠ .endOfText) :
    Yields (Token.payload <$> expect kind) stream text next ↔
      ∃ token, token.kind = kind ∧ text = token.payload ∧ stream.Hands token next := by
  simp only [yields_map, yields_expect hkind]
  constructor
  · rintro ⟨token, ⟨htoken, hhands⟩, rfl⟩
    exact ⟨token, htoken, rfl, hhands⟩
  · rintro ⟨token, htoken, rfl, hhands⟩
    exact ⟨token, ⟨htoken, hhands⟩, rfl⟩

@[simp] theorem yields_expectTypename {name : String} :
    Yields expectTypename stream name next ↔
      ∃ token, token.kind = .typename ∧ name = token.payload ∧ stream.Hands token next :=
  yields_expectPayload (by simp)

/-- At the end of the text its end can be expected, and nothing changes. -/
theorem yields_expect_end :
    Yields (expect .endOfText) stream token next ↔
      stream.atEnd ∧ token = stream.buffered ∧ next = stream := by
  simp only [expect, yields_bind, yields_isAt, yields_ite, yields_peek, not_yields_refuse,
    and_assoc, exists_and_left, exists_eq_left, decide_eq_true_eq]
  by_cases hat : stream.buffered.kind = .endOfText
  · have hadvance : Yields advance stream stream.buffered stream :=
      advance_of_atEnd (decide_eq_true hat)
    rw [if_pos hat]
    simp only [atEnd, hat, decide_true, true_and]
    constructor
    · intro hyields
      exact hyields.unique hadvance
    · rintro ⟨rfl, rfl⟩
      exact hadvance
  · simp [hat, atEnd]

/-! ## Going on after a look or a token -/

section Continue

variable {result : β}

@[simp] theorem yields_peek_bind {continuation : Token → Parser β} :
    Yields (peek >>= continuation) stream result next ↔
      Yields (continuation stream.buffered) stream result next := by
  simp only [yields_bind, yields_peek, and_assoc, exists_and_left, exists_eq_left]

@[simp] theorem yields_isAt_bind {kind : Kind} {continuation : Bool → Parser β} :
    Yields (isAt kind >>= continuation) stream result next ↔
      Yields (continuation (decide (stream.buffered.kind = kind))) stream result next := by
  simp only [yields_bind, yields_isAt, and_assoc, exists_and_left, exists_eq_left]

theorem yields_advance_bind {continuation : Token → Parser β}
    (hend : stream.buffered.kind ≠ .endOfText) :
    Yields (advance >>= continuation) stream result next ↔
      ∃ middle, stream.Hands stream.buffered middle ∧
        Yields (continuation stream.buffered) middle result next := by
  simp only [yields_bind, yields_advance hend]
  constructor
  · rintro ⟨token, middle, hhands, hrest⟩
    obtain rfl := hhands.buffered_eq
    exact ⟨middle, hhands, hrest⟩
  · rintro ⟨middle, hhands, hrest⟩
    exact ⟨_, middle, hhands, hrest⟩

/-- Going on after a token that is taken if it is there. -/
theorem yields_taking_bind {taking : Parser (Option Token)}
    {continuation : Option Token → Parser β} {absent : Prop} {isTaken : Token → Prop}
    (htaking : ∀ taken next, Yields taking stream taken next ↔
      (taken = none ∧ next = stream ∧ absent) ∨
        ∃ token, taken = some token ∧ isTaken token ∧ stream.Hands token next) :
    Yields (taking >>= continuation) stream result next ↔
      (absent ∧ Yields (continuation none) stream result next) ∨
        ∃ token middle, isTaken token ∧ stream.Hands token middle ∧
          Yields (continuation (some token)) middle result next := by
  simp only [yields_bind, htaking]
  constructor
  · rintro ⟨_, middle, ⟨rfl, rfl, hnot⟩ | ⟨token, rfl, htoken, hhands⟩, hrest⟩
    · exact .inl ⟨hnot, hrest⟩
    · exact .inr ⟨token, middle, htoken, hhands, hrest⟩
  · rintro (⟨hnot, hrest⟩ | ⟨token, middle, htoken, hhands, hrest⟩)
    · exact ⟨_, _, .inl ⟨rfl, rfl, hnot⟩, hrest⟩
    · exact ⟨_, _, .inr ⟨token, rfl, htoken, hhands⟩, hrest⟩

theorem yields_take?_bind {kind : Kind} {continuation : Option Token → Parser β}
    (hkind : kind ≠ .endOfText) :
    Yields (take? kind >>= continuation) stream result next ↔
      (stream.buffered.kind ≠ kind ∧ Yields (continuation none) stream result next) ∨
        ∃ token middle, token.kind = kind ∧ stream.Hands token middle ∧
          Yields (continuation (some token)) middle result next :=
  yields_taking_bind fun _ _ => yields_take? hkind

theorem yields_takeAny?_bind {kinds : List Kind} {continuation : Option Token → Parser β}
    (hkinds : Kind.endOfText ∉ kinds) :
    Yields (takeAny? kinds >>= continuation) stream result next ↔
      (stream.buffered.kind ∉ kinds ∧ Yields (continuation none) stream result next) ∨
        ∃ token middle, token.kind ∈ kinds ∧ stream.Hands token middle ∧
          Yields (continuation (some token)) middle result next :=
  yields_taking_bind fun _ _ => yields_takeAny? hkinds

theorem yields_takeWord?_bind {word : String} {continuation : Option Token → Parser β} :
    Yields (takeWord? word >>= continuation) stream result next ↔
      (¬ (stream.buffered.kind = .name ∧ stream.buffered.data = some word) ∧
          Yields (continuation none) stream result next) ∨
        ∃ token middle, (token.kind = .name ∧ token.data = some word) ∧
          stream.Hands token middle ∧ Yields (continuation (some token)) middle result next :=
  yields_taking_bind fun _ _ => yields_takeWord?

theorem yields_takeSymbol?_bind {symbols : List Symbol}
    {continuation : Option (Token × Symbol) → Parser β} :
    Yields (takeSymbol? symbols >>= continuation) stream result next ↔
      ((∀ symbol ∈ symbols, stream.buffered.kind ≠ .symbol symbol) ∧
          Yields (continuation none) stream result next) ∨
        ∃ token symbol middle, token.kind = .symbol symbol ∧ symbol ∈ symbols ∧
          stream.Hands token middle ∧ Yields (continuation (some (token, symbol))) middle result
            next := by
  simp only [yields_bind, yields_takeSymbol?]
  constructor
  · rintro ⟨_, middle, ⟨rfl, rfl, hnot⟩ | ⟨token, symbol, rfl, htoken, hmem, hhands⟩, hrest⟩
    · exact .inl ⟨hnot, hrest⟩
    · exact .inr ⟨token, symbol, middle, htoken, hmem, hhands, hrest⟩
  · rintro (⟨hnot, hrest⟩ | ⟨token, symbol, middle, htoken, hmem, hhands, hrest⟩)
    · exact ⟨_, _, .inl ⟨rfl, rfl, hnot⟩, hrest⟩
    · exact ⟨_, _, .inr ⟨token, symbol, rfl, htoken, hmem, hhands⟩, hrest⟩

@[simp] theorem yields_expectSymbol_bind {symbol : Symbol} {continuation : Token → Parser β} :
    Yields (expectSymbol symbol >>= continuation) stream result next ↔
      ∃ token middle, token.kind = .symbol symbol ∧ stream.Hands token middle ∧
        Yields (continuation token) middle result next := by
  simp only [yields_bind, yields_expectSymbol, and_assoc]

theorem yields_expectPayload_bind {kind : Kind} {continuation : String → Parser β}
    (hkind : kind ≠ .endOfText) :
    Yields (Token.payload <$> expect kind >>= continuation) stream result next ↔
      ∃ token middle, token.kind = kind ∧ stream.Hands token middle ∧
        Yields (continuation token.payload) middle result next := by
  simp only [yields_bind, yields_expectPayload hkind]
  constructor
  · rintro ⟨_, middle, ⟨token, htoken, rfl, hhands⟩, hrest⟩
    exact ⟨token, middle, htoken, hhands, hrest⟩
  · rintro ⟨token, middle, htoken, hhands, hrest⟩
    exact ⟨_, middle, ⟨token, htoken, rfl, hhands⟩, hrest⟩

@[simp] theorem yields_expectName_bind {continuation : String → Parser β} :
    Yields (expectName >>= continuation) stream result next ↔
      ∃ token middle, token.kind = .name ∧ stream.Hands token middle ∧
        Yields (continuation token.payload) middle result next :=
  yields_expectPayload_bind (by simp)

@[simp] theorem yields_expectTypename_bind {continuation : String → Parser β} :
    Yields (expectTypename >>= continuation) stream result next ↔
      ∃ token middle, token.kind = .typename ∧ stream.Hands token middle ∧
        Yields (continuation token.payload) middle result next :=
  yields_expectPayload_bind (by simp)

end Continue

/-! ## Repetition -/

section Iterate

variable {step : α → Parser (Option α)} {extended result : α}

theorem yields_iterate_stop (hstep : Yields (step value) stream none next) :
    Yields (iterate step value) stream value next := by
  unfold Yields at hstep ⊢
  unfold iterate
  simp only [hstep]

theorem iterate_of_yields (hstep : Yields (step value) stream (some extended) middle)
    (hprogress : middle.remaining < stream.remaining) :
    iterate step value stream = iterate step extended middle := by
  unfold Yields at hstep
  rw [iterate]
  simp only [hstep]
  rw [dif_pos hprogress]

theorem yields_iterate_next (hstep : Yields (step value) stream (some extended) middle)
    (hprogress : middle.remaining < stream.remaining)
    (hrest : Yields (iterate step extended) middle result next) :
    Yields (iterate step value) stream result next :=
  (iterate_of_yields hstep hprogress).trans hrest

/-- What every step keeps, the whole iteration keeps. Each step has to take a token. -/
theorem Yields.iterate_induction (invariant goal : TokenStream → α → Prop)
    (hstop : ∀ stream value next, invariant stream value →
      Yields (step value) stream none next → goal next value)
    (hnext : ∀ stream value next extended, invariant stream value →
      Yields (step value) stream (some extended) next →
        invariant next extended ∧ next.remaining < stream.remaining)
    (hinitial : invariant stream value) (hyields : Yields (iterate step value) stream result next) :
    goal next result := by
  unfold Yields at hyields
  fun_induction iterate step value stream generalizing next with
  | case1 => simp at hyields
  | case2 value stream after hstep =>
      obtain ⟨rfl, rfl⟩ := EStateM.Result.ok.inj hyields
      exact hstop _ _ _ hinitial hstep
  | case3 value stream extended after hstep hprogress ih =>
      exact ih (hnext _ _ _ _ hinitial hstep).1 hyields
  | case4 value stream extended after hstep hstuck =>
      exact absurd (hnext _ _ _ _ hinitial hstep).2 hstuck

end Iterate

section Many

variable {step : Parser (Option α)} {values : List α}

theorem yields_many_stop (hstep : Yields step stream none next) :
    Yields (many step) stream [] next := by
  unfold Yields at hstep ⊢
  unfold many
  simp only [hstep]

theorem yields_many_next (hstep : Yields step stream (some value) middle)
    (hprogress : middle.remaining < stream.remaining)
    (hrest : Yields (many step) middle values next) :
    Yields (many step) stream (value :: values) next := by
  unfold Yields at hstep hrest ⊢
  unfold many
  simp only [hstep]
  rw [dif_pos hprogress, hrest]

/-- The values of a repetition come from its steps in order. Each step has to take a token. -/
theorem Yields.many_induction {motive : TokenStream → List α → TokenStream → Prop}
    (hprogress : ∀ stream value next, Yields step stream (some value) next →
      next.remaining < stream.remaining)
    (hstop : ∀ stream next, Yields step stream none next → motive stream [] next)
    (hnext : ∀ stream value middle values next, Yields step stream (some value) middle →
      motive middle values next → motive stream (value :: values) next)
    (hyields : Yields (many step) stream values next) : motive stream values next := by
  unfold Yields at hyields
  fun_induction many step stream generalizing values next with
  | case1 => simp at hyields
  | case2 stream after hstep =>
      obtain ⟨rfl, rfl⟩ := EStateM.Result.ok.inj hyields
      exact hstop _ _ hstep
  | case3 stream value after hstep _ failure last hrest ih => simp at hyields
  | case4 stream value after hstep _ values' last hrest ih =>
      obtain ⟨rfl, rfl⟩ := EStateM.Result.ok.inj hyields
      exact hnext _ _ _ _ _ hstep (ih hrest)
  | case5 stream value after hstep hstuck => exact absurd (hprogress _ _ _ hstep) hstuck

end Many

end ClassLang.Parser
