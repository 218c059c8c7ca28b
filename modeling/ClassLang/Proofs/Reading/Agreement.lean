import ClassLang.Proofs.Reading.CorrespondingTexts
import ClassLang.Proofs.Reading.ProgramGrammar

/-! # Reading and tokenizing agree

A text is tokenized one token ahead of what is read from it. Still, reading comes to the same as
tokenizing the whole text before: it succeeds only where tokenizing does, fails for a lexical
reason only with the failure of tokenizing, and blames only tokens that tokenizing comes by.
-/

namespace ClassLang

open TokenStream ClassLang.Parser Syntax

variable {source : Source} {α : Type}

namespace Correspondence

/-- A text beside itself: its tokens have one property, what is the first to fail another. -/
def diagonal (token : Token → Prop) (lexical : LexicalError → Prop) : Correspondence where
  token first second := first = second ∧ token first
  lexical first second := first = second ∧ lexical first
  kind_eq htoken := by rw [htoken.1]
  data_eq htoken := by rw [htoken.1]

theorem courses_diagonal {token : Token → Prop} {lexical : LexicalError → Prop} {course : Upcoming}
    (hfound : ∀ first ∈ course.found, token first)
    (herror : ∀ error, course.firstError? = some error → lexical error) :
    (diagonal token lexical).Courses course course := by
  induction course with
  | endOfText offset => exact .endOfText ⟨rfl, hfound _ (List.mem_singleton_self _)⟩
  | token first next ih =>
      obtain ⟨hfirst, hnext⟩ := List.forall_mem_cons.mp hfound
      exact .token ⟨rfl, hfirst⟩ (ih hnext herror)
  | failure error offset next _ => exact .failure ⟨rfl, herror _ rfl⟩ rfl
  | stuck error offset => exact .stuck ⟨rfl, herror _ rfl⟩

end Correspondence

/-- The failure is the first one of a text to be tokenized, or it is about a token that is found
before. -/
inductive Failure.Arises (course : Upcoming) : Failure → Prop
  | lexical {error : LexicalError} : course.firstError? = some error →
      Arises course (.lexical error)
  | grammatical {error : GrammarError} : error.token ∈ course.found →
      Arises course (.grammatical error)
  | integerTooLong {token : Token} : token ∈ course.found → token.kind = .int →
      Failure.integerDigits < token.payload.toList.length →
      Arises course (.integerTooLong token.payload.toList.length)

/-- The correspondence of a text with itself, as far as it can be tokenized. -/
def Source.itself (source : Source) : Correspondence :=
  .diagonal (· ∈ source.course.found) (source.course.firstError? = some ·)

theorem Source.courses_itself (source : Source) :
    source.itself.Courses source.course source.course :=
  Correspondence.courses_diagonal (fun _ hfirst => hfirst) (fun _ herror => herror)

theorem Correspondence.Failures.arises {failure failure' : Failure}
    (hfailures : source.itself.Failures failure failure') : failure.Arises source.course := by
  cases hfailures with
  | lexical herror => exact .lexical herror.2
  | grammatical htoken => exact .grammatical htoken.2
  | integerTooLong htoken hkind hlong => exact .integerTooLong htoken.2 hkind hlong

/-- Whatever fails arises from the text. -/
theorem Program.arises_of_read_error {failure : Failure}
    (hread : Program.read source = .error failure) : failure.Arises source.course := by
  -- read beside itself, the source fails with what corresponds to itself
  have hreadings := Correspondence.readings_program source.courses_itself
  rw [hread] at hreadings
  cases hreadings with
  | error hfailure => exact hfailure.arises

theorem Expr.arises_of_read_error {failure : Failure}
    (hread : Expr.read source = .error failure) : failure.Arises source.course := by
  have hreadings := Correspondence.readings_expression source.courses_itself
  rw [hread] at hreadings
  cases hreadings with
  | error hfailure => exact hfailure.arises

/-! ## Success -/

/-- A text that is read to its end can be tokenized. -/
theorem TokenStream.tokens_of_run {parser : Parser α} {value : α}
    (hparser : ∀ stream next, Yields parser stream value next →
      next.atEnd ∧ ∃ ts, stream.Passes ts next)
    (hread : parser.run source = .ok value) : ∃ tokens, TokenStream.tokens source = .ok tokens := by
  obtain ⟨start, last, hstart, hyields⟩ := run_eq_ok_iff.mp hread
  obtain ⟨hend, ts, hpasses⟩ := hparser _ _ hyields
  exact ⟨_, tokens_eq_ok_iff.mpr ⟨start, last, ts, hstart, hpasses, hend, rfl⟩⟩

theorem Program.tokens_of_read {program : Program Token}
    (hread : Program.read source = .ok program) :
    ∃ tokens, TokenStream.tokens source = .ok tokens := by
  refine tokens_of_run (fun stream next hyields => ?_) hread
  obtain ⟨hend, ts, hpasses, _⟩ := Level.sound_module hyields
  exact ⟨hend, ts, hpasses⟩

theorem Expr.tokens_of_read {tree : Expr Token} (hread : Expr.read source = .ok tree) :
    ∃ tokens, TokenStream.tokens source = .ok tokens := by
  refine tokens_of_run (fun stream next hyields => ?_) hread
  obtain ⟨htree, hend⟩ := Level.yields_wholeExpression.mp hyields
  obtain ⟨ts, hpasses, _⟩ :=
    (Level.bounded_soundExpressions _ nestingLimit none).expression _ _ _ htree
  exact ⟨hend, ts, hpasses⟩

/-- A text that is read as a program consists of tokens that are this program. -/
theorem Program.isProgram_of_read {program : Program Token}
    (hread : Program.read source = .ok program) :
    ∃ front last, TokenStream.tokens source = .ok (front ++ [last]) ∧
      IsProgram front last program := by
  obtain ⟨tokens, htokens⟩ := Program.tokens_of_read hread
  obtain ⟨_, last, front, _, _, _, rfl⟩ := tokens_eq_ok_iff.mp htokens
  exact ⟨front, last.buffered, htokens, Program.isProgram_of_readWithin htokens hread⟩

/-- A text that is read as an expression consists of tokens that are this expression. -/
theorem Expr.isExpression_of_read {tree : Expr Token} (hread : Expr.read source = .ok tree) :
    ∃ front last, TokenStream.tokens source = .ok (front ++ [last]) ∧
      IsExpression none front tree := by
  obtain ⟨tokens, htokens⟩ := Expr.tokens_of_read hread
  obtain ⟨_, last, front, _, _, _, rfl⟩ := tokens_eq_ok_iff.mp htokens
  exact ⟨front, last.buffered, htokens, Expr.derives_of_readWithin htokens hread⟩

/-! ## Agreement -/

/-- What comes of reading a source is in keeping with what comes of tokenizing it. -/
def Source.Supports (source : Source) : Except Failure α → Prop
  | .ok _ => ∃ tokens, TokenStream.tokens source = .ok tokens
  | .error (.lexical error) => TokenStream.tokens source = .error error
  | .error (.grammatical error) =>
      source.Reaches error.token ∧
        ∀ tokens, TokenStream.tokens source = .ok tokens → error.token ∈ tokens
  | .error (.integerTooLong digits) =>
      ∃ token, source.Reaches token ∧ token.kind = .int ∧ digits = token.payload.toList.length
  | .error (.noPrecedence _) => False

theorem Failure.Arises.supported {failure : Failure} (harises : failure.Arises source.course) :
    source.Supports (.error failure : Except Failure α) := by
  cases harises with
  | lexical herror => exact tokens_eq_error_iff.mpr herror
  | grammatical hfound =>
      refine ⟨reaches_of_mem_found hfound, fun tokens htokens => ?_⟩
      rw [← (tokens_eq_ok_iff_found.mp htokens).2]
      exact hfound
  | integerTooLong hfound hkind _ => exact ⟨_, reaches_of_mem_found hfound, hkind, rfl⟩

/-- Reading a text agrees with tokenizing it first. -/
theorem read_agrees_with_tokens (source : Source) :
    source.Supports (Program.read source) ∧ source.Supports (Expr.read source) := by
  constructor
  · cases hread : Program.read source with
    | ok program => exact Program.tokens_of_read hread
    | error failure => exact (Program.arises_of_read_error hread).supported
  · cases hread : Expr.read source with
    | ok tree => exact Expr.tokens_of_read hread
    | error failure => exact (Expr.arises_of_read_error hread).supported

end ClassLang
