import ClassLang.Proofs.Reading.CorrespondingTexts
import ClassLang.Report.Wording

/-! # Layout does not matter

What is read from a text depends on the kinds of its tokens and what they carry, and on nothing
else: not on layout, not on how literals are delimited, not on where the tokens stand. A failure
is about a token of the same index and is worded the same.
-/

namespace ClassLang

variable {source source' : Source} {tokens tokens' : List Token}

/-- Two readings end alike. They yield values of the same shape, or they fail with the same words
about tokens of the same index, or for an integer literal with the same number of digits. -/
inductive ReadAlike (tokens tokens' : List Token) {α : Type} (same : α → α → Prop) :
    Except Failure α → Except Failure α → Prop
  | ok {value value' : α} : same value value' →
      ReadAlike tokens tokens' same (.ok value) (.ok value')
  | grammatical {cause : GrammarCause} {index : Nat} {first second : Token} :
      tokens[index]? = some first → tokens'[index]? = some second →
      cause.wording first = cause.wording second →
      ReadAlike tokens tokens' same (.error (.grammatical ⟨cause, first⟩))
        (.error (.grammatical ⟨cause, second⟩))
  | integerTooLong {digits : Nat} :
      ReadAlike tokens tokens' same (.error (.integerTooLong digits))
        (.error (.integerTooLong digits))

theorem GrammarCause.wording_congr {first second : Token} (hkind : first.kind = second.kind)
    (hdata : first.data = second.data) (cause : GrammarCause) :
    cause.wording first = cause.wording second := by
  have hdescribe : first.describe = second.describe := by
    rw [Token.describe, Token.describe, hkind, hdata]
  cases cause <;> simp [GrammarCause.wording, hdescribe]

namespace Correspondence

/-- Tokens of two lists that have the same index and agree in kind and data. Nothing fails to be a
token. -/
def byIndex (tokens tokens' : List Token) : Correspondence where
  token first second := (first.kind = second.kind ∧ first.data = second.data) ∧
    ∃ index : Nat, tokens[index]? = some first ∧ tokens'[index]? = some second
  lexical _ _ := False
  kind_eq htoken := htoken.1.1
  data_eq htoken := htoken.1.2

theorem forall₂_byIndex (halike : tokens.map (fun token => (token.kind, token.data)) =
    tokens'.map fun token => (token.kind, token.data)) :
    List.Forall₂ (byIndex tokens tokens').token tokens tokens' := by
  have hlength : tokens.length = tokens'.length := by
    simpa using congrArg List.length halike
  refine List.forall₂_iff_get.mpr
    ⟨hlength, fun index hindex hindex' => ⟨?_, index, by simp, by simp⟩⟩
  have hpair := congrArg (·[index]?) halike
  simpa [hindex, hindex'] using hpair

end Correspondence

theorem Upcoming.found_ne_nil {course : Upcoming} (hnone : course.firstError? = none) :
    course.found ≠ [] := by
  cases course <;> simp_all [found, firstError?]

/-- Where nothing fails, texts correspond if their tokens do. -/
theorem Correspondence.courses_of_found {c : Correspondence} {course course' : Upcoming}
    (hnone : course.firstError? = none) (hnone' : course'.firstError? = none)
    (hfound : List.Forall₂ c.token course.found course'.found) : c.Courses course course' := by
  induction course generalizing course' with
  | endOfText offset =>
      cases course' with
      | endOfText offset' =>
          obtain ⟨htoken, _⟩ := List.forall₂_cons.mp hfound
          exact .endOfText htoken
      | token second next' =>
          -- another token is left, the end of the second text at least
          obtain ⟨_, hrest⟩ := List.forall₂_cons.mp hfound
          exact absurd (List.forall₂_nil_left_iff.mp hrest) (Upcoming.found_ne_nil hnone')
      | failure => cases hnone'
      | stuck => cases hnone'
  | token first next ih =>
      cases course' with
      | endOfText offset' =>
          obtain ⟨_, hrest⟩ := List.forall₂_cons.mp hfound
          exact absurd (List.forall₂_nil_right_iff.mp hrest) (Upcoming.found_ne_nil hnone)
      | token second next' =>
          obtain ⟨htoken, hrest⟩ := List.forall₂_cons.mp hfound
          exact .token htoken (ih hnone hnone' hrest)
      | failure => cases hnone'
      | stuck => cases hnone'
  | failure => cases hnone
  | stuck => cases hnone

theorem Correspondence.Readings.readAlike {α : Type} {same : α → α → Prop}
    {reading reading' : Except Failure α}
    (hreadings : (byIndex tokens tokens').Readings same reading reading') :
    ReadAlike tokens tokens' same reading reading' := by
  cases hreadings with
  | ok hvalue => exact .ok hvalue
  | error hfailures =>
      cases hfailures with
      | lexical herror => exact herror.elim
      | grammatical htoken =>
          obtain ⟨⟨hkind, hdata⟩, index, hfirst, hsecond⟩ := htoken
          exact .grammatical hfirst hsecond (GrammarCause.wording_congr hkind hdata _)
      | integerTooLong => exact .integerTooLong

/-- Texts whose tokens agree in kind and in what they carry are read alike. -/
theorem read_alike_of_tokens (htokens : TokenStream.tokens source = .ok tokens)
    (htokens' : TokenStream.tokens source' = .ok tokens')
    (halike : tokens.map (fun token => (token.kind, token.data)) =
      tokens'.map fun token => (token.kind, token.data)) :
    ReadAlike tokens tokens' (fun first second => first.same second) (Program.read source)
        (Program.read source') ∧
      ReadAlike tokens tokens' (fun first second => first.same second) (Expr.read source)
        (Expr.read source') := by
  have hcourses : (Correspondence.byIndex tokens tokens').Courses source.course source'.course := by
    obtain ⟨hnone, rfl⟩ := TokenStream.tokens_eq_ok_iff_found.mp htokens
    obtain ⟨hnone', rfl⟩ := TokenStream.tokens_eq_ok_iff_found.mp htokens'
    exact Correspondence.courses_of_found hnone hnone' (Correspondence.forall₂_byIndex halike)
  exact ⟨(Correspondence.readings_program hcourses).readAlike,
    (Correspondence.readings_expression hcourses).readAlike⟩

/-- Comments, a line break and another delimiter change nothing, nor does another name. -/
theorem read_alike_commented :
    let source := Source.ofString "main" "class Ab \x7b String a = 'b\\n'; \x7d"
    let source' := Source.ofString "" "class/*c*/Ab\x7b//\x7d\nString a=\"\"\"b\n\"\"\";\x7d"
    ∃ tokens tokens', TokenStream.tokens source = .ok tokens ∧
      TokenStream.tokens source' = .ok tokens' ∧
      ReadAlike tokens tokens' (fun first second => first.same second) (Program.read source)
        (Program.read source') ∧
      ReadAlike tokens tokens' (fun first second => first.same second) (Expr.read source)
        (Expr.read source') := by
  intro source source'
  have htokens : TokenStream.tokens source = .ok
      [⟨.keyword .class, none, 0, 5⟩, ⟨.typename, some "Ab", 6, 8⟩,
        ⟨.symbol .braceOpen, none, 9, 10⟩, ⟨.typename, some "String", 11, 17⟩,
        ⟨.name, some "a", 18, 19⟩, ⟨.symbol .assign, none, 20, 21⟩, ⟨.string, some "b\n", 22, 27⟩,
        ⟨.symbol .semicolon, none, 27, 28⟩, ⟨.symbol .braceClose, none, 29, 30⟩,
        .endOfText 30] := by decide +kernel
  have htokens' : TokenStream.tokens source' = .ok
      [⟨.keyword .class, none, 0, 5⟩, ⟨.typename, some "Ab", 10, 12⟩,
        ⟨.symbol .braceOpen, none, 12, 13⟩, ⟨.typename, some "String", 17, 23⟩,
        ⟨.name, some "a", 24, 25⟩, ⟨.symbol .assign, none, 25, 26⟩, ⟨.string, some "b\n", 26, 34⟩,
        ⟨.symbol .semicolon, none, 34, 35⟩, ⟨.symbol .braceClose, none, 35, 36⟩,
        .endOfText 36] := by decide +kernel
  exact ⟨_, _, htokens, htokens', read_alike_of_tokens htokens htokens' rfl⟩

end ClassLang
