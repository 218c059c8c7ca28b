import ClassLang.Proofs.Reading.Agreement
import ClassLang.Proofs.Rendering.Text
import ClassLang.Report.CompileError

/-! # How failures are reported

Whatever fails while a text is tokenized or read is reported by a compile error about a place in
this text, with one exception: an integer literal of too many digits. There is no compile error
for it.
-/

namespace ClassLang

open TokenStream

variable {source : Source} {token : Token} {failure : Failure}

/-- The compile error that reports a failure in the source. -/
inductive Failure.Reported (source : Source) (refusal : CompileError) : Failure → Prop
  | lexical {error : LexicalError} : error.report source = .ok refusal →
      Reported source refusal (.lexical error)
  | grammatical {error : GrammarError} : error.report source = .ok refusal →
      Reported source refusal (.grammatical error)

/-- In one of these ways the source cannot be tokenized or read. -/
inductive Source.Fails (source : Source) : Failure → Prop
  | tokens {error : LexicalError} : TokenStream.tokens source = .error error →
      Fails source (.lexical error)
  | program {failure : Failure} : Program.read source = .error failure → Fails source failure
  | expression {failure : Failure} : Expr.read source = .error failure → Fails source failure

theorem PlacedToken.exists_place (hpos : token.pos ≤ source.length) :
    ∃ placed, place source token = .ok placed :=
  ⟨⟨source, token, hpos⟩, dif_pos hpos⟩

theorem Failure.Arises.reported (harises : failure.Arises source.course) :
    (∃ refusal, failure.Reported source refusal) ∨
      ∃ token, source.Reaches token ∧ token.kind = .int ∧
        Failure.integerDigits < token.payload.toList.length ∧
        failure = .integerTooLong token.payload.toList.length := by
  have hplace := Upcoming.pos_le_of_ofText 0 source.text
  rw [Nat.zero_add] at hplace
  cases harises with
  | lexical herror =>
      obtain ⟨placed, hplaced⟩ := PlacedToken.exists_place (hplace.2 _ herror)
      exact .inl ⟨_, .lexical (by rw [LexicalError.report, hplaced]; rfl)⟩
  | grammatical hfound =>
      obtain ⟨placed, hplaced⟩ := PlacedToken.exists_place (hplace.1 _ hfound)
      exact .inl ⟨_, .grammatical (by rw [GrammarError.report, hplaced]; rfl)⟩
  | integerTooLong hfound hkind hlong =>
      exact .inr ⟨_, reaches_of_mem_found hfound, hkind, hlong, rfl⟩

/-- A failure is reported by a compile error, or it is that an integer literal was reached that
has too many digits. -/
theorem Source.Fails.reported_or_integerTooLong (hfails : source.Fails failure) :
    (∃ refusal, failure.Reported source refusal) ∨
      ∃ token, source.Reaches token ∧ token.kind = .int ∧
        Failure.integerDigits < token.payload.toList.length ∧
        failure = .integerTooLong token.payload.toList.length := by
  cases hfails with
  | tokens htokens => exact (Failure.Arises.lexical (tokens_eq_error_iff.mp htokens)).reported
  | program hread => exact (Program.arises_of_read_error hread).reported
  | expression hread => exact (Expr.arises_of_read_error hread).reported

/-- A literal that breaks off after a literal that does not. -/
theorem Source.Fails.reported_unterminated :
    let source := Source.ofString "demo" "1 + \"a\" + \"b"
    let failure := Failure.lexical (.about .unterminatedString 10 12)
    source.Fails failure ∧
      ((∃ refusal, failure.Reported source refusal) ∨
        ∃ token, source.Reaches token ∧ token.kind = .int ∧
          Failure.integerDigits < token.payload.toList.length ∧
          failure = .integerTooLong token.payload.toList.length) := by
  intro source failure
  have hfails : source.Fails failure := .tokens (by decide +kernel)
  exact ⟨hfails, Source.Fails.reported_or_integerTooLong hfails⟩

/-! ## Integer literals -/

section Integer

variable {stream next : TokenStream} {depth : Nat} {enclosing : Option String}

/-- The token is taken before it is found to be too long. -/
theorem Level.primary_integerTooLong {level : Level}
    (hdigits : level.integerDigits = some Failure.integerDigits)
    (hkind : stream.buffered.kind = .int)
    (hlong : Failure.integerDigits < stream.buffered.payload.toList.length)
    (hscan : scan stream.upcoming = .ok next) :
    level.primary enclosing stream =
      .error (.integerTooLong stream.buffered.payload.toList.length) next := by
  have hopen : stream.atEnd = false := by simp [atEnd, hkind]
  have hinteger : level.integer stream.buffered next =
      .error (.integerTooLong stream.buffered.payload.toList.length) next := by
    simp only [Level.integer, hdigits, Option.any_some, hlong, decide_true, if_true]
    rfl
  unfold Level.primary
  change EStateM.bind Parser.peek _ stream = _
  simp only [EStateM.bind, Parser.peek, hkind]
  change EStateM.bind Parser.advance _ stream = _
  simp only [EStateM.bind, Parser.advance_of_scan hopen hscan, hinteger]

/-- All that stands around the literal fails with it. -/
theorem Level.expression_integerTooLong (hkind : stream.buffered.kind = .int)
    (hlong : Failure.integerDigits < stream.buffered.payload.toList.length)
    (hscan : scan stream.upcoming = .ok next) :
    (ofDepth (depth + 7)).read enclosing (.expression none) stream =
      .error (.integerTooLong stream.buffered.payload.toList.length) next := by
  have hprimary : (ofDepth (depth + 1)).read enclosing .primary stream = _ :=
    Level.primary_integerTooLong (integerDigits_bounded _ depth) hkind hlong hscan
  have hsuffixed : (ofDepth (depth + 2)).read enclosing (.suffixed none) stream = _ :=
    Parser.bind_of_error hprimary
  have hunary : (ofDepth (depth + 3)).read enclosing .unary stream =
      .error (.integerTooLong stream.buffered.payload.toList.length) next := by
    -- a number is no operator that could stand before an operand
    have hnone : Parser.takeSymbol? Symbol.leading stream = .ok none stream := by
      unfold Parser.takeSymbol?
      change EStateM.bind Parser.peek _ stream = _
      simp only [EStateM.bind, Parser.peek, hkind]
      rfl
    change EStateM.bind (Parser.takeSymbol? Symbol.leading) _ stream = _
    simp only [EStateM.bind, hnone]
    exact hsuffixed
  have hbinary : (ofDepth (depth + 4)).read enclosing (.binary 1 none) stream = _ :=
    Parser.bind_of_error hunary
  have hconditional : (ofDepth (depth + 5)).read enclosing (.conditional none) stream = _ :=
    Parser.bind_of_error hbinary
  have hassignment : (ofDepth (depth + 6)).read enclosing (.assignment none) stream = _ :=
    Parser.bind_of_error hconditional
  exact hassignment

/-- A text that begins with such a literal is no expression. -/
theorem Expr.read_integerTooLong (hstart : ofSource source = .ok stream)
    (hkind : stream.buffered.kind = .int)
    (hlong : Failure.integerDigits < stream.buffered.payload.toList.length)
    (hscan : scan stream.upcoming = .ok next) :
    Expr.read source = .error (.integerTooLong stream.buffered.payload.toList.length) := by
  have hexpression : (Level.ofDepth nestingLimit).read none (.expression none) stream = _ :=
    Level.expression_integerTooLong hkind hlong hscan
  exact Parser.run_eq_error hstart (Parser.bind_of_error hexpression)

/-- A text of too many digits and nothing else is no expression. -/
theorem Expr.read_digits {uri : String} {text : List Char} (htext : ∀ c ∈ text, c.isDigit)
    (hlong : Failure.integerDigits < text.length) :
    Expr.read ⟨uri, text⟩ = .error (.integerTooLong text.length) := by
  have hne : text ≠ [] := by
    rintro rfl
    simp at hlong
  have hstands : (⟨.int, some (String.ofList text), text⟩ : Scan.Lexeme).Stands := by
    apply Scan.Lexeme.stands_of_plain
    · exact fun c hc => .of_isDigit (htext c hc)
    · intro rest hrest
      rw [Scan.Lexeme.plain?, Scan.Lexeme.number?_int htext hne hrest]
      rfl
  have hread := @Scan.Lexeme.Stands.read _ [] hstands (by simp [Scan.Separated])
  rw [List.append_nil] at hread
  have hstart : ofSource ⟨uri, text⟩ = .ok ⟨⟨.int, some (String.ofList text), 0, text.length⟩,
      text.length, .ofText text.length []⟩ := by
    rw [ofSource, Upcoming.ofText_of_lexeme hread, scan]
    simp
  have hscan : scan (.ofText text.length []) = .ok ⟨.endOfText text.length, text.length,
      .endOfText text.length⟩ := by
    rw [Upcoming.ofText_nil, scan]
  have hlength : (Token.payload ⟨.int, some (String.ofList text), 0, text.length⟩).toList.length =
      text.length := by simp [Token.payload]
  have hread := Expr.read_integerTooLong hstart rfl (hlength.symm ▸ hlong) hscan
  rwa [hlength] at hread

/-- A number of 4301 digits is refused, and no compile error reports it. -/
theorem Source.Fails.not_reported :
    let source : Source := ⟨"<expression>", List.replicate 4301 '1'⟩
    source.Fails (.integerTooLong 4301) ∧
      ∀ refusal, ¬ (Failure.integerTooLong 4301).Reported source refusal := by
  have hread : Expr.read ⟨"<expression>", List.replicate 4301 '1'⟩ =
      .error (.integerTooLong 4301) := by
    have hdigits := @Expr.read_digits "<expression>" (List.replicate 4301 '1')
      (fun c hc => by rw [List.eq_of_mem_replicate hc]; rfl) (by rw [List.length_replicate]; decide)
    rwa [List.length_replicate] at hdigits
  exact ⟨.expression hread, fun refusal hreported => by cases hreported⟩

end Integer

end ClassLang
