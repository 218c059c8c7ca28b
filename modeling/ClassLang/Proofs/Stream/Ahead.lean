import ClassLang.Proofs.Stream.Turn

/-! # What is ahead of a stream

With every token that is handed out less is ahead of a stream, and what is still ahead is the end of
what has been ahead before. At the end of the text nothing is ahead, and nothing is handed out.
-/

namespace ClassLang.TokenStream

variable {stream middle next last : TokenStream} {course : Upcoming} {token : Token}
  {tokens : List Token}

theorem length_ahead (stream : TokenStream) : stream.ahead.length = stream.remaining := by
  have hlength (course : Upcoming) : course.tokens.length = course.length := by
    induction course with
    | endOfText | stuck => rfl
    | token first next ih => rw [Upcoming.tokens, Upcoming.length, List.length_cons, ih]
    | failure error offset next ih => rw [Upcoming.tokens, Upcoming.length, ih]
  unfold ahead remaining
  split
  · rfl
  · rw [List.length_cons, hlength]

theorem ahead_suffix_of_scan (hscan : scan course = .ok next) : next.ahead <:+ course.tokens := by
  cases course with
  | endOfText offset =>
      obtain rfl := Except.ok.inj hscan
      exact List.nil_suffix
  | token first rest =>
      obtain rfl := Except.ok.inj hscan
      unfold ahead
      split
      · exact List.nil_suffix
      · exact List.suffix_refl _
  | failure | stuck => cases hscan

theorem Hands.ahead_suffix (hhands : stream.Hands token next) : next.ahead <:+ stream.ahead := by
  have hahead : stream.ahead = stream.buffered :: stream.upcoming.tokens := by
    rw [ahead, if_neg (by simp [hhands.1])]
  rw [hahead]
  exact (ahead_suffix_of_scan hhands.scan_upcoming).trans (List.suffix_cons _ _)

theorem Passes.ahead_suffix (hpasses : stream.Passes tokens last) :
    last.ahead <:+ stream.ahead := by
  induction hpasses with
  | nil => exact List.suffix_refl _
  | cons hhands _ ih => exact ih.trans hhands.ahead_suffix

/-- At least one token is handed out on the way to the other stream, and what is ahead of it is a
proper suffix of what has been ahead. -/
structure Advances (stream next : TokenStream) : Prop where
  passes : ∃ token rest, stream.Passes (token :: rest) next
  suffix : next.ahead <:+ stream.ahead
  ne : next.ahead ≠ stream.ahead

theorem Passes.advances (hpasses : stream.Passes (token :: tokens) next) :
    stream.Advances next := by
  refine ⟨⟨token, tokens, hpasses⟩, hpasses.ahead_suffix, fun heq => ?_⟩
  have hlt := hpasses.remaining_lt (List.cons_ne_nil _ _)
  rw [← length_ahead, ← length_ahead, heq] at hlt
  exact Nat.lt_irrefl _ hlt

theorem Hands.advances_of_passes (hhands : stream.Hands token middle)
    (hpasses : middle.Passes tokens next) : stream.Advances next :=
  (Passes.cons hhands hpasses).advances

theorem Advances.remaining_lt (hadvances : stream.Advances next) :
    next.remaining < stream.remaining := by
  obtain ⟨token, rest, hpasses⟩ := hadvances.passes
  exact hpasses.remaining_lt (List.cons_ne_nil _ _)

/-- From the end of the text no token is handed out. -/
theorem Passes.eq_of_atEnd (hend : stream.atEnd) (hpasses : stream.Passes tokens last) :
    last = stream := by
  cases hpasses with
  | nil => rfl
  | cons hhands => simp [hhands.1] at hend

theorem Advances.atEnd_eq (hadvances : stream.Advances next) : stream.atEnd = false := by
  obtain ⟨token, rest, hpasses⟩ := hadvances.passes
  obtain ⟨middle, hhands, _⟩ := Passes.cons_iff.mp hpasses
  exact hhands.1

end ClassLang.TokenStream
