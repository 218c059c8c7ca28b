import ClassLang.Proofs.Stream.Tiling

/-! # The course of a text

What scanning finds in a text before anything fails is a list of tokens, and at most one thing is
the first to fail. Tokenizing the text gives the one or fails with the other, and what a stream
comes to show is among what is found. All of it stands within the text.
-/

namespace ClassLang

namespace Upcoming

/-- The tokens that scanning finds before anything fails, the end of the text last if nothing
does. -/
def found : Upcoming → List Token
  | endOfText offset => [.endOfText offset]
  | token first next => first :: next.found
  | failure _ _ _ => []
  | stuck _ _ => []

/-- What is the first to fail, if anything does. -/
def firstError? : Upcoming → Option LexicalError
  | endOfText _ => none
  | token _ next => next.firstError?
  | failure error _ _ => some error
  | stuck error _ => some error

/-- What is found before anything fails marks the end of the text only where the text ends. -/
inductive Lexed : Upcoming → Prop
  | endOfText (offset : Nat) : Lexed (endOfText offset)
  | token {first : Token} {next : Upcoming} : first.kind ≠ .endOfText → Lexed next →
      Lexed (token first next)
  | failure (error : LexicalError) (offset : Nat) (next : Upcoming) :
      Lexed (failure error offset next)
  | stuck (error : LexicalError) (offset : Nat) : Lexed (stuck error offset)

theorem lexed_ofText (offset : Nat) (text : List Char) : Lexed (ofText offset text) := by
  fun_induction ofText offset text with
  | case1 _ _ _ _ _ hread _ _ ih => exact .token (Scan.pieces_of_read hread).2.kind_ne.1 ih
  | case2 => exact .endOfText _
  | case3 => exact .failure _ _ _
  | case4 => exact .failure _ _ _
  | case5 => exact .failure _ _ _
  | case6 => exact .stuck _ _

/-- What comes of one scan, and then of the text that it leaves. -/
def ofScan (offset : Nat) : Scan → Upcoming
  | .lexeme skipped found rest =>
      token ⟨found.kind, found.data, offset + skipped.length,
          Nat.cast (offset + skipped.length + found.text.length)⟩
        (ofText (offset + skipped.length + found.text.length) rest)
  | .endOfText skipped => endOfText (offset + skipped.length)
  | .openComment skipped comment =>
      failure (.about .unterminatedComment (offset + skipped.length) (offset + skipped.length + 2))
        (offset + skipped.length + comment.length)
        (endOfText (offset + skipped.length + comment.length))
  | .openString skipped literal =>
      failure (.about .unterminatedString (offset + skipped.length)
          (offset + skipped.length + literal.length))
        (offset + skipped.length + literal.length)
        (endOfText (offset + skipped.length + literal.length))
  | .badEscape skipped literal rest =>
      failure (.about .unrecognizedEscape (offset + skipped.length + literal.length)
          (offset + skipped.length + literal.length + 1))
        (offset + skipped.length + literal.length)
        (ofText (offset + skipped.length + literal.length) rest)
  | .noToken skipped _ =>
      stuck (.about .unrecognizedToken (offset + skipped.length) (offset + skipped.length + 1))
        (offset + skipped.length)

theorem ofText_eq (offset : Nat) (text : List Char) :
    ofText offset text = ofScan offset (Scan.read text) := by
  rw [ofText]
  split <;> simp only [ofScan, *]

theorem ofText_nil (offset : Nat) : ofText offset [] = .endOfText offset := by
  have hread : Scan.read [] = .endOfText [] := by
    simp [Scan.read, Scan.Layout.split, Scan.clear]
  rw [ofText_eq, hread, ofScan]
  rfl

theorem ofText_of_lexeme {offset : Nat} {text skipped rest : List Char} {lexeme : Scan.Lexeme}
    (hread : Scan.read text = .lexeme skipped lexeme rest) :
    ofText offset text =
      .token ⟨lexeme.kind, lexeme.data, offset + skipped.length,
          Nat.cast (offset + skipped.length + lexeme.text.length)⟩
        (.ofText (offset + skipped.length + lexeme.text.length) rest) := by
  rw [ofText_eq, hread, ofScan]

/-- What is found in a text and what is the first to fail there begins within the text. -/
theorem pos_le_of_ofText (offset : Nat) (text : List Char) :
    (∀ token ∈ (ofText offset text).found, token.pos ≤ offset + text.length) ∧
      ∀ error, (ofText offset text).firstError? = some error →
        error.token.pos ≤ offset + text.length := by
  fun_induction ofText offset text with
  | case1 offset text skipped lexeme rest hread start stop ih =>
      have hlength := congrArg List.length (Scan.text_read text)
      simp only [hread, Scan.text, List.length_append] at hlength
      refine ⟨List.forall_mem_cons.mpr ⟨?_, fun token htoken => ?_⟩, fun error herror => ?_⟩
      · change offset + skipped.length ≤ _
        omega
      · exact Nat.le_trans (ih.1 token htoken) (by omega)
      · exact Nat.le_trans (ih.2 error herror) (by omega)
  | case2 offset text skipped hread =>
      have hlength := congrArg List.length (Scan.text_read text)
      simp only [hread, Scan.text] at hlength
      refine ⟨fun token htoken => ?_, fun error herror => by cases herror⟩
      obtain rfl := List.mem_singleton.mp htoken
      exact Nat.le_of_eq (by rw [Token.endOfText, hlength])
  | case3 _ text _ _ hread | case4 _ text _ _ hread | case5 _ text _ _ _ hread
  | case6 _ text _ _ hread =>
      -- what fails begins where the skipped layout or the literal ends
      have hlength := congrArg List.length (Scan.text_read text)
      simp only [hread, Scan.text, List.length_append] at hlength
      refine ⟨fun token htoken => (by cases htoken), fun error herror => ?_⟩
      obtain rfl := Option.some.inj herror
      simp only [LexicalError.about]
      omega

end Upcoming

namespace Source

/-- What scanning a source from its beginning has in store. -/
def course (source : Source) : Upcoming := .ofText 0 source.text

/-- Handing out tokens from the beginning comes to show this one before anything fails. -/
def Reaches (source : Source) (token : Token) : Prop :=
  ∃ start front stream, TokenStream.ofSource source = .ok start ∧ start.Passes front stream ∧
    stream.buffered = token

end Source

namespace TokenStream

variable {course : Upcoming} {source : Source} {stream next : TokenStream} {token : Token}

/-- A source is read from where scanning it begins. -/
theorem ofSource_eq_ok_iff : ofSource source = .ok stream ↔ scan source.course = .ok stream := by
  unfold ofSource Source.course
  cases scan (.ofText 0 source.text) <;> simp

theorem ofSource_of_scan_error {error : LexicalError} {rest : Nat × Upcoming}
    (hscan : scan source.course = .error (error, rest)) : ofSource source = .error error := by
  unfold Source.course at hscan
  rw [ofSource, hscan]

theorem lexed_of_scan (hlexed : course.Lexed) (hscan : scan course = .ok stream) :
    stream.upcoming.Lexed := by
  cases hlexed with
  | endOfText offset =>
      obtain rfl := Except.ok.inj hscan
      exact .endOfText offset
  | token _ hnext =>
      obtain rfl := Except.ok.inj hscan
      exact hnext
  | failure => cases hscan
  | stuck => cases hscan

theorem Passes.lexed {last : TokenStream} {front : List Token} (hpasses : stream.Passes front last)
    (hlexed : stream.upcoming.Lexed) : last.upcoming.Lexed := by
  induction hpasses with
  | nil => exact hlexed
  | cons hhands _ ih => exact ih (lexed_of_scan hlexed hhands.scan_upcoming)

theorem firstError?_of_scan_error {error : LexicalError} {rest : Nat × Upcoming}
    (hscan : scan course = .error (error, rest)) : course.firstError? = some error := by
  cases course <;> simp_all [scan, Upcoming.firstError?]

theorem found_of_scan_error {error : LexicalError × Nat × Upcoming}
    (hscan : scan course = .error error) : course.found = [] := by
  cases course <;> simp_all [scan, Upcoming.found]

/-- What is found is handed out one by one, so that each of it comes to be shown. -/
theorem passes_of_mem_found (hlexed : course.Lexed) (hscan : scan course = .ok stream)
    (hfound : token ∈ course.found) :
    ∃ front last, stream.Passes front last ∧ last.buffered = token := by
  induction hlexed generalizing stream with
  | endOfText =>
      obtain rfl := Except.ok.inj hscan
      exact ⟨[], _, .nil _, (List.mem_singleton.mp hfound).symm⟩
  | @token first rest hkind _ ih =>
      obtain rfl := Except.ok.inj hscan
      rcases List.mem_cons.mp hfound with rfl | hrest
      · exact ⟨[], _, .nil _, rfl⟩
      · cases hnext : scan rest with
        | ok next =>
            obtain ⟨front, last, hpasses, hlast⟩ := ih hnext hrest
            exact ⟨_, last, .cons (hands_of_scan hkind hnext) hpasses, hlast⟩
        | error => simp [found_of_scan_error hnext] at hrest
  | failure => cases hscan
  | stuck => cases hscan

theorem reaches_of_mem_found (hfound : token ∈ source.course.found) : source.Reaches token := by
  cases hscan : scan source.course with
  | ok stream =>
      obtain ⟨front, last, hpasses, hlast⟩ :=
        passes_of_mem_found (Upcoming.lexed_ofText 0 source.text) hscan hfound
      exact ⟨stream, front, last, ofSource_eq_ok_iff.mpr hscan, hpasses, hlast⟩
  | error => simp [found_of_scan_error hscan] at hfound

theorem tokenize_of_hands (hhands : stream.Hands token next) :
    tokenize stream = match tokenize next with
      | .ok tokens last => .ok (token :: tokens) last
      | .error error last => .error error last := by
  rw [tokenize.eq_def stream, dif_neg (by simp [hhands.1])]
  split
  next hadvance => simp [hhands.2] at hadvance
  next hadvance =>
    obtain ⟨rfl, rfl⟩ := EStateM.Result.ok.inj (hhands.2.symm.trans hadvance)
    cases tokenize next <;> rfl

theorem tokenize_of_scan_error {error : LexicalError} {rest : Nat × Upcoming}
    (hopen : stream.atEnd = false) (hscan : scan stream.upcoming = .error (error, rest)) :
    tokenize stream = .error error ⟨stream.buffered, rest.1, rest.2⟩ := by
  have hfails : advance stream = .error error ⟨stream.buffered, rest.1, rest.2⟩ := by
    simp [advance, hopen, hscan]
  rw [tokenize, dif_neg (by simp [hopen])]
  split
  next hadvance =>
    obtain ⟨rfl, rfl⟩ := EStateM.Result.error.inj (hadvance.symm.trans hfails)
    rfl
  next hadvance => simp [hfails] at hadvance

/-- What is left to tokenize is what is found, or what is the first to fail. -/
theorem tokenize_of_scan (hlexed : course.Lexed) (hscan : scan course = .ok stream) :
    (course.firstError? = none ∧ ∃ last, tokenize stream = .ok course.found last) ∨
      ∃ error last, course.firstError? = some error ∧ tokenize stream = .error error last := by
  induction hlexed generalizing stream with
  | endOfText offset =>
      obtain rfl := Except.ok.inj hscan
      refine .inl ⟨rfl, ⟨.endOfText offset, offset, .endOfText offset⟩, ?_⟩
      rw [tokenize, dif_pos (by rfl), Upcoming.found]
  | @token first rest hkind _ ih =>
      obtain rfl := Except.ok.inj hscan
      cases hnext : scan rest with
      | ok next =>
          rw [tokenize_of_hands (hands_of_scan hkind hnext)]
          rcases ih hnext with ⟨hnone, last, htokenize⟩ | ⟨error, last, hsome, htokenize⟩
          · exact .inl ⟨hnone, last, by rw [htokenize, Upcoming.found]⟩
          · exact .inr ⟨error, last, hsome, by rw [htokenize]⟩
      | error error =>
          have hfails := @tokenize_of_scan_error ⟨first, first.stop.toNat, rest⟩ _ _
            (decide_eq_false hkind) hnext
          have hfirst : rest.firstError? = some error.1 := firstError?_of_scan_error hnext
          exact .inr ⟨error.1, _, hfirst, hfails⟩
  | failure => cases hscan
  | stuck => cases hscan

/-- Tokenizing a source gives what is found in it, or fails with what is the first to fail. -/
theorem tokens_eq (source : Source) :
    tokens source = match source.course.firstError? with
      | none => .ok source.course.found
      | some error => .error error := by
  have hlexed : source.course.Lexed := Upcoming.lexed_ofText 0 source.text
  unfold tokens
  cases hscan : scan source.course with
  | error error =>
      rw [ofSource_of_scan_error hscan, firstError?_of_scan_error hscan]
      rfl
  | ok stream =>
      rw [ofSource_eq_ok_iff.mpr hscan]
      rcases tokenize_of_scan hlexed hscan with
        ⟨hnone, last, htokenize⟩ | ⟨error, last, hsome, htokenize⟩
      · simp [hnone, htokenize, bind, Except.bind]
      · simp [hsome, htokenize, bind, Except.bind]

theorem tokens_eq_ok_iff_found {tokens : List Token} :
    TokenStream.tokens source = .ok tokens ↔
      source.course.firstError? = none ∧ source.course.found = tokens := by
  rw [tokens_eq]
  cases source.course.firstError? <;> simp

theorem tokens_eq_error_iff {error : LexicalError} :
    tokens source = .error error ↔ source.course.firstError? = some error := by
  rw [tokens_eq]
  cases source.course.firstError? <;> simp

end TokenStream

end ClassLang
