import ClassLang.Stream.Basic

/-! # Passing over tokens

Handing out tokens one by one leads a stream through a list of tokens to
another stream. What a parser takes from a stream is such a list, and the
tokens of a whole text are the list that leads to the end of the text.
-/

namespace ClassLang

/-- What a text has in store that yields just these tokens. -/
def Upcoming.ofTokens : List Token → Upcoming
  | [] => .endOfText 0
  | first :: rest => .token first (ofTokens rest)

namespace TokenStream

/-- Handing out `token` leads from `stream` to `next`. The end of the text is never handed out
in this sense. -/
def Hands (stream : TokenStream) (token : Token) (next : TokenStream) : Prop :=
  stream.atEnd = false ∧ stream.advance = .ok token next

/-- Handing out `tokens` one after the other leads from the first stream to the last. -/
inductive Passes : TokenStream → List Token → TokenStream → Prop
  | nil (stream : TokenStream) : Passes stream [] stream
  | cons {stream middle last : TokenStream} {token : Token} {tokens : List Token} :
      stream.Hands token middle → Passes middle tokens last → Passes stream (token :: tokens) last

variable {stream middle next last : TokenStream} {token : Token} {tokens front back : List Token}

theorem Hands.buffered_eq (hhands : stream.Hands token next) : stream.buffered = token := by
  obtain ⟨hend, hadvance⟩ := hhands
  unfold advance at hadvance
  rw [if_neg (by simp [hend])] at hadvance
  split at hadvance
  next => exact (EStateM.Result.ok.inj hadvance).1
  next => simp at hadvance

theorem Hands.kind_ne (hhands : stream.Hands token next) : token.kind ≠ .endOfText := by
  have hend := hhands.1
  rw [atEnd, decide_eq_false_iff_not, hhands.buffered_eq] at hend
  exact hend

theorem Hands.unique {other : Token} {after : TokenStream} (hhands : stream.Hands token next)
    (hother : stream.Hands other after) : token = other ∧ next = after :=
  EStateM.Result.ok.inj (hhands.2.symm.trans hother.2)

/-- A token is handed out if the scan for the one after it succeeds, and only then. -/
theorem hands_of_scan (hkind : stream.buffered.kind ≠ .endOfText)
    (hscan : scan stream.upcoming = .ok next) : stream.Hands stream.buffered next := by
  refine ⟨decide_eq_false hkind, ?_⟩
  unfold advance
  rw [if_neg (by simp [atEnd, hkind]), hscan]

theorem Hands.scan_upcoming (hhands : stream.Hands token next) :
    scan stream.upcoming = .ok next := by
  obtain ⟨hend, hadvance⟩ := hhands
  unfold advance at hadvance
  rw [if_neg (by simp [hend])] at hadvance
  split at hadvance
  next hscan => rw [hscan, (EStateM.Result.ok.inj hadvance).2]
  next => simp at hadvance

theorem Hands.remaining_lt (hhands : stream.Hands token next) :
    next.remaining < stream.remaining :=
  remaining_advance hhands.1 hhands.2

namespace Passes

@[simp] theorem nil_iff : Passes stream [] last ↔ last = stream := by
  constructor
  · intro hpasses
    cases hpasses
    rfl
  · rintro rfl
    exact .nil _

theorem cons_iff :
    Passes stream (token :: tokens) last ↔
      ∃ middle, stream.Hands token middle ∧ Passes middle tokens last := by
  constructor
  · intro hpasses
    cases hpasses with
    | cons hhands hrest => exact ⟨_, hhands, hrest⟩
  · rintro ⟨middle, hhands, hrest⟩
    exact .cons hhands hrest

theorem single (hhands : stream.Hands token next) : Passes stream [token] next :=
  .cons hhands (.nil _)

theorem singleton_iff : Passes stream [token] last ↔ stream.Hands token last := by
  constructor
  · intro hpasses
    obtain ⟨middle, hhands, hnil⟩ := cons_iff.mp hpasses
    exact nil_iff.mp hnil ▸ hhands
  · exact single

theorem append (hfront : Passes stream front middle) (hback : Passes middle back last) :
    Passes stream (front ++ back) last := by
  induction hfront with
  | nil => exact hback
  | cons hhands _ ih => exact .cons hhands (ih hback)

theorem append_iff :
    Passes stream (front ++ back) last ↔
      ∃ middle, Passes stream front middle ∧ Passes middle back last := by
  constructor
  · intro hpasses
    induction front generalizing stream with
    | nil => exact ⟨stream, .nil _, hpasses⟩
    | cons token front ih =>
        obtain ⟨next, hhands, hrest⟩ := cons_iff.mp hpasses
        obtain ⟨middle, hfront, hback⟩ := ih hrest
        exact ⟨middle, .cons hhands hfront, hback⟩
  · rintro ⟨middle, hfront, hback⟩
    exact hfront.append hback

theorem append_cons_iff :
    Passes stream (front ++ token :: back) last ↔
      ∃ middle, Passes stream front middle ∧
        ∃ after, middle.Hands token after ∧ Passes after back last := by
  simp only [append_iff, cons_iff]

/-- The first token to pass over is the one that the stream shows. -/
theorem buffered_eq (hpasses : Passes stream (token :: tokens) last) :
    stream.buffered = token := by
  obtain ⟨_, hhands, _⟩ := cons_iff.mp hpasses
  exact hhands.buffered_eq

/-- Where tokens may stand before another one, the stream shows the first of them all. -/
theorem headD_eq (hpasses : Passes stream (front ++ token :: back) last) :
    stream.buffered = front.headD token := by
  cases front with
  | nil => exact hpasses.buffered_eq
  | cons first rest => exact hpasses.buffered_eq

theorem headD_buffered (hpasses : Passes stream tokens last) :
    stream.buffered = tokens.headD last.buffered := by
  cases hpasses with
  | nil => rfl
  | cons hhands _ => exact hhands.buffered_eq

theorem remaining_le (hpasses : Passes stream tokens last) :
    last.remaining ≤ stream.remaining := by
  induction hpasses with
  | nil => exact Nat.le_refl _
  | cons hhands _ ih => exact Nat.le_trans ih (Nat.le_of_lt hhands.remaining_lt)

theorem remaining_lt (hpasses : Passes stream tokens last) (htokens : tokens ≠ []) :
    last.remaining < stream.remaining := by
  cases hpasses with
  | nil => contradiction
  | cons hhands hrest => exact Nat.lt_of_le_of_lt hrest.remaining_le hhands.remaining_lt

/-- There is one way to the end of a text. -/
theorem to_end_unique {other : TokenStream} (hfront : Passes stream front last)
    (hlast : last.atEnd) (hback : Passes stream back other) (hother : other.atEnd) :
    front = back ∧ last = other := by
  induction hfront generalizing back with
  | nil =>
      cases hback with
      | nil => exact ⟨rfl, rfl⟩
      | cons hhands => simp [hhands.1] at hlast
  | cons hhands _ ih =>
      cases hback with
      | nil => simp [hhands.1] at hother
      | cons hhands' hrest =>
          obtain ⟨rfl, rfl⟩ := hhands.unique hhands'
          obtain ⟨rfl, rfl⟩ := ih hlast hrest
          exact ⟨rfl, rfl⟩

end Passes

/-- A stream that hands out these tokens. -/
def ofTokens : List Token → TokenStream
  | [] => ⟨.endOfText 0, 0, .endOfText 0⟩
  | first :: rest => ⟨first, first.stop.toNat, .ofTokens rest⟩

theorem hands_ofTokens (hkind : token.kind ≠ .endOfText) :
    (ofTokens (token :: tokens)).Hands token (ofTokens tokens) := by
  have hopen : (ofTokens (token :: tokens)).atEnd = false := decide_eq_false hkind
  refine ⟨hopen, ?_⟩
  unfold advance
  rw [if_neg (by simp [hopen])]
  cases tokens <;> rfl

/-- Any tokens but the end of a text can be passed over. -/
theorem passes_ofTokens (htokens : ∀ token ∈ tokens, token.kind ≠ .endOfText) :
    Passes (ofTokens tokens) tokens (ofTokens []) := by
  induction tokens with
  | nil => exact .nil _
  | cons token tokens ih =>
      obtain ⟨htoken, hrest⟩ := List.forall_mem_cons.mp htokens
      exact .cons (hands_ofTokens htoken) (ih hrest)

/-- The tokens that are left are those passed over up to the end, and the end itself. -/
theorem tokenize_eq_ok_iff :
    tokenize stream = .ok tokens last ↔
      ∃ front, Passes stream front last ∧ last.atEnd ∧ tokens = front ++ [last.buffered] := by
  constructor
  · intro htokenize
    fun_induction tokenize stream generalizing tokens with
    | case1 stream hend =>
        obtain ⟨rfl, rfl⟩ := EStateM.Result.ok.inj htokenize
        exact ⟨[], .nil _, hend, rfl⟩
    | case2 => simp at htokenize
    | case3 => simp at htokenize
    | case4 stream hend token next hadvance rest after hrest ih =>
        obtain ⟨rfl, rfl⟩ := EStateM.Result.ok.inj htokenize
        obtain ⟨front, hpasses, hlast, rfl⟩ := ih hrest
        exact ⟨token :: front, .cons ⟨by simpa using hend, hadvance⟩ hpasses, hlast, rfl⟩
  · rintro ⟨front, hpasses, hlast, rfl⟩
    induction hpasses with
    | nil =>
        unfold tokenize
        simp [hlast]
    | cons hhands _ ih =>
        unfold tokenize
        rw [dif_neg (by simp [hhands.1])]
        split
        next hadvance => simp [hhands.2] at hadvance
        next hadvance =>
          obtain ⟨rfl, rfl⟩ := EStateM.Result.ok.inj (hhands.2.symm.trans hadvance)
          simp [ih hlast]

/-- The tokens of a source lead from its beginning to its end. -/
theorem tokens_eq_ok_iff {source : Source} :
    TokenStream.tokens source = .ok tokens ↔
      ∃ start last front, ofSource source = .ok start ∧ Passes start front last ∧ last.atEnd ∧
        tokens = front ++ [last.buffered] := by
  constructor
  · intro htokens
    unfold TokenStream.tokens at htokens
    cases hstart : ofSource source with
    | error error => simp [hstart, bind, Except.bind] at htokens
    | ok start =>
        simp only [hstart, bind, Except.bind] at htokens
        split at htokens
        next all last htokenize =>
          obtain rfl := Except.ok.inj htokens
          obtain ⟨front, hpasses, hlast, heq⟩ := tokenize_eq_ok_iff.mp htokenize
          exact ⟨start, last, front, rfl, hpasses, hlast, heq⟩
        next => simp at htokens
  · rintro ⟨start, last, front, hstart, hpasses, hlast, heq⟩
    have htokenize := tokenize_eq_ok_iff.mpr ⟨front, hpasses, hlast, heq⟩
    simp [TokenStream.tokens, hstart, bind, Except.bind, htokenize]

end TokenStream

end ClassLang
