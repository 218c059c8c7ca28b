import ClassLang.Proofs.Reading.Rounds
import Mathlib.Data.List.Forall2

/-! # Texts that correspond

Two texts are read side by side. Where their tokens correspond one by one, in kind and in what
they carry, parsers that are made of corresponding parsers in the same way correspond: both yield
related values and go on with what corresponds, or both fail with failures that correspond. What
tokens and failures correspond beyond this is left open, for positions and the like.
-/

namespace ClassLang

/-- Which tokens of two texts correspond, and which failures to find one. Corresponding tokens are
of one kind and carry the same. -/
structure Correspondence where
  token : Token → Token → Prop
  lexical : LexicalError → LexicalError → Prop
  kind_eq {first second : Token} : token first second → first.kind = second.kind
  data_eq {first second : Token} : token first second → first.data = second.data

namespace Correspondence

variable {c : Correspondence} {α β γ δ : Type}

theorem payload_eq {first second : Token} (htoken : c.token first second) :
    first.payload = second.payload := by
  rw [Token.payload, Token.payload, c.data_eq htoken]

/-! ## Streams -/

/-- What two texts have in store corresponds up to the first failure, and as many tokens follow
it. -/
inductive Courses (c : Correspondence) : Upcoming → Upcoming → Prop
  | endOfText {first second} : c.token (.endOfText first) (.endOfText second) →
      Courses c (.endOfText first) (.endOfText second)
  | token {first second next next'} : c.token first second → Courses c next next' →
      Courses c (.token first next) (.token second next')
  | failure {first second offset offset' next next'} : c.lexical first second →
      next.length = next'.length →
      Courses c (.failure first offset next) (.failure second offset' next')
  | stuck {first second offset offset'} : c.lexical first second →
      Courses c (.stuck first offset) (.stuck second offset')

/-- The tokens that two streams show correspond, and so does what is to come. -/
structure Streams (c : Correspondence) (stream stream' : TokenStream) : Prop where
  buffered : c.token stream.buffered stream'.buffered
  upcoming : c.Courses stream.upcoming stream'.upcoming

theorem Courses.length_eq {course course' : Upcoming} (hcourses : c.Courses course course') :
    course.length = course'.length := by
  induction hcourses with
  | endOfText => rfl
  | token _ _ ih => rw [Upcoming.length, Upcoming.length, ih]
  | failure _ hlength => exact hlength
  | stuck => rfl

/-- A scan finds tokens that correspond, or it fails on both sides. -/
theorem Courses.scan {course course' : Upcoming} (hcourses : c.Courses course course') :
    (∃ stream stream', TokenStream.scan course = .ok stream ∧
        TokenStream.scan course' = .ok stream' ∧ c.Streams stream stream') ∨
      ∃ error error' rest rest', TokenStream.scan course = .error (error, rest) ∧
        TokenStream.scan course' = .error (error', rest') ∧ c.lexical error error' := by
  cases hcourses with
  | endOfText htoken => exact .inl ⟨_, _, rfl, rfl, htoken, .endOfText htoken⟩
  | token htoken hnext => exact .inl ⟨_, _, rfl, rfl, htoken, hnext⟩
  | failure herror => exact .inr ⟨_, _, _, _, rfl, rfl, herror⟩
  | stuck herror => exact .inr ⟨_, _, _, _, rfl, rfl, herror⟩

namespace Streams

variable {stream stream' : TokenStream}

theorem atEnd_eq (hstreams : c.Streams stream stream') : stream.atEnd = stream'.atEnd := by
  rw [TokenStream.atEnd, TokenStream.atEnd, c.kind_eq hstreams.buffered]

theorem remaining_eq (hstreams : c.Streams stream stream') :
    stream.remaining = stream'.remaining := by
  rw [TokenStream.remaining, TokenStream.remaining, hstreams.atEnd_eq,
    hstreams.upcoming.length_eq]

end Streams

/-! ## Parsers -/

/-- Failures of the same sort about what corresponds. -/
inductive Failures (c : Correspondence) : Failure → Failure → Prop
  | lexical {first second} : c.lexical first second → Failures c (.lexical first) (.lexical second)
  | grammatical {cause first second} : c.token first second →
      Failures c (.grammatical ⟨cause, first⟩) (.grammatical ⟨cause, second⟩)
  | integerTooLong {first second} : c.token first second → first.kind = .int →
      Failure.integerDigits < first.payload.toList.length →
      Failures c (.integerTooLong first.payload.toList.length)
        (.integerTooLong first.payload.toList.length)

/-- Two readings end alike: with related values and streams that correspond, or with failures that
do. -/
inductive Results (c : Correspondence) (related : α → β → Prop) :
    EStateM.Result Failure TokenStream α → EStateM.Result Failure TokenStream β → Prop
  | ok {value value' stream stream'} : related value value' → c.Streams stream stream' →
      Results c related (.ok value stream) (.ok value' stream')
  | error {failure failure' stream stream'} : c.Failures failure failure' →
      Results c related (.error failure stream) (.error failure' stream')

namespace Results

variable {related : α → β → Prop} {result' : EStateM.Result Failure TokenStream β}

theorem of_ok {value : α} {stream : TokenStream}
    (hresults : c.Results related (.ok value stream) result') :
    ∃ value' stream', result' = .ok value' stream' ∧ related value value' ∧
      c.Streams stream stream' := by
  cases hresults with
  | ok hvalue hstreams => exact ⟨_, _, rfl, hvalue, hstreams⟩

theorem of_error {failure : Failure} {stream : TokenStream}
    (hresults : c.Results related (.error failure stream) result') :
    ∃ failure' stream', result' = .error failure' stream' ∧ c.Failures failure failure' := by
  cases hresults with
  | error hfailure => exact ⟨_, _, rfl, hfailure⟩

end Results

/-- On streams that correspond the parsers end alike. -/
def Parsers (c : Correspondence) (related : α → β → Prop) (parser : Parser α)
    (other : Parser β) : Prop :=
  ∀ stream stream', c.Streams stream stream' → c.Results related (parser stream) (other stream')

namespace Parsers

variable {related : α → β → Prop} {further : γ → δ → Prop} {parser : Parser α} {other : Parser β}

theorem mono {weaker : α → β → Prop} (hparsers : c.Parsers related parser other)
    (himp : ∀ value value', related value value' → weaker value value') :
    c.Parsers weaker parser other := by
  intro stream stream' hstreams
  cases hresult : parser stream <;> cases hresult' : other stream' <;>
    have hresults := hparsers stream stream' hstreams <;> rw [hresult, hresult'] at hresults <;>
    cases hresults
  case ok.ok hvalue hnext => exact .ok (himp _ _ hvalue) hnext
  case error.error hfailure => exact .error hfailure

theorem pure {value : α} {value' : β} (hvalue : related value value') :
    c.Parsers related (Pure.pure value) (Pure.pure value') :=
  fun _ _ hstreams => .ok hvalue hstreams

theorem bind {continuation : α → Parser γ} {rest : β → Parser δ}
    (hparsers : c.Parsers related parser other)
    (hrest : ∀ value value', related value value' →
      c.Parsers further (continuation value) (rest value')) :
    c.Parsers further (parser >>= continuation) (other >>= rest) := by
  intro stream stream' hstreams
  change c.Results further (EStateM.bind parser continuation stream)
    (EStateM.bind other rest stream')
  unfold EStateM.bind
  have hresults := hparsers stream stream' hstreams
  generalize parser stream = result at hresults ⊢
  generalize other stream' = result' at hresults ⊢
  cases hresults with
  | ok hvalue hnext => exact hrest _ _ hvalue _ _ hnext
  | error hfailure => exact .error hfailure

theorem map {f : α → γ} {g : β → δ} (hparsers : c.Parsers related parser other)
    (hmap : ∀ value value', related value value' → further (f value) (g value')) :
    c.Parsers further (f <$> parser) (g <$> other) := by
  rw [← bind_pure_comp, ← bind_pure_comp]
  exact hparsers.bind fun _ _ hvalue => .pure (hmap _ _ hvalue)

/-- Both sides begin in the one way or in the other and then go on. -/
theorem choice {test : Prop} [Decidable test] {first second : Parser α} {first' second' : Parser β}
    {continuation : α → Parser γ} {rest : β → Parser δ} (hfirst : c.Parsers related first first')
    (hsecond : c.Parsers related second second')
    (hrest : ∀ value value', related value value' →
      c.Parsers further (continuation value) (rest value')) :
    c.Parsers further (if test then first >>= continuation else second >>= continuation)
      (if test then first' >>= rest else second' >>= rest) := by
  split
  · exact hfirst.bind hrest
  · exact hsecond.bind hrest

theorem refuse {cause : GrammarCause} {token token' : Token} (htoken : c.token token token') :
    c.Parsers related (Parser.refuse cause token) (Parser.refuse cause token') :=
  fun _ _ _ => .error (.grammatical htoken)

/-! ### Taking tokens -/

theorem peek : c.Parsers c.token Parser.peek Parser.peek :=
  fun _ _ hstreams => .ok hstreams.buffered hstreams

theorem advance : c.Parsers c.token Parser.advance Parser.advance := by
  intro stream stream' hstreams
  have hend := hstreams.atEnd_eq
  cases hopen : stream.atEnd with
  | true =>
      rw [Parser.advance_of_atEnd hopen, Parser.advance_of_atEnd (hend.symm.trans hopen)]
      exact .ok hstreams.buffered hstreams
  | false =>
      rcases hstreams.upcoming.scan with
        ⟨next, next', hscan, hscan', hnext⟩ | ⟨error, error', rest, rest', hscan, hscan', herror⟩
      · rw [Parser.advance_of_scan hopen hscan,
          Parser.advance_of_scan (hend.symm.trans hopen) hscan']
        exact .ok hstreams.buffered hnext
      · rw [Parser.advance_of_scan_error hopen hscan,
          Parser.advance_of_scan_error (hend.symm.trans hopen) hscan']
        exact .error (.lexical herror)

theorem isAt {kind : Kind} : c.Parsers Eq (Parser.isAt kind) (Parser.isAt kind) :=
  peek.bind fun _ _ htoken => .pure (by rw [c.kind_eq htoken])

theorem isAtWord {word : String} : c.Parsers Eq (Parser.isAtWord word) (Parser.isAtWord word) :=
  peek.bind fun _ _ htoken => .pure (by rw [c.kind_eq htoken, c.data_eq htoken])

/-- Both sides take a token, or both take none. -/
theorem takeIf {test : Prop} [Decidable test] :
    c.Parsers (Option.Rel c.token) (if test then some <$> Parser.advance else Pure.pure none)
      (if test then some <$> Parser.advance else Pure.pure none) := by
  split
  · exact advance.map fun _ _ htoken => .some htoken
  · exact .pure .none

theorem take? {kind : Kind} :
    c.Parsers (Option.Rel c.token) (Parser.take? kind) (Parser.take? kind) := by
  refine isAt.bind fun answer _ hanswer => ?_
  subst hanswer
  exact takeIf

theorem takeWord? {word : String} :
    c.Parsers (Option.Rel c.token) (Parser.takeWord? word) (Parser.takeWord? word) := by
  refine isAtWord.bind fun answer _ hanswer => ?_
  subst hanswer
  exact takeIf

theorem takeAny? {kinds : List Kind} :
    c.Parsers (Option.Rel c.token) (Parser.takeAny? kinds) (Parser.takeAny? kinds) := by
  refine peek.bind fun token token' htoken => ?_
  rw [c.kind_eq htoken]
  exact takeIf

theorem takeSymbol? {symbols : List Symbol} :
    c.Parsers (Option.Rel fun taken taken' => c.token taken.1 taken'.1 ∧ taken.2 = taken'.2)
      (Parser.takeSymbol? symbols) (Parser.takeSymbol? symbols) := by
  refine peek.bind fun token token' htoken => ?_
  rw [c.kind_eq htoken]
  split
  · split
    · exact advance.bind fun _ _ htaken => .pure (.some ⟨htaken, rfl⟩)
    · exact .pure .none
  · exact .pure .none

theorem expect {kind : Kind} : c.Parsers c.token (Parser.expect kind) (Parser.expect kind) := by
  refine isAt.bind fun answer _ hanswer => ?_
  subst hanswer
  split
  · exact advance
  · exact peek.bind fun _ _ htoken => .refuse htoken

theorem expectSymbol {symbol : Symbol} :
    c.Parsers c.token (Parser.expectSymbol symbol) (Parser.expectSymbol symbol) := expect

theorem expectName : c.Parsers Eq Parser.expectName Parser.expectName :=
  expect.map fun _ _ htoken => payload_eq htoken

theorem expectTypename : c.Parsers Eq Parser.expectTypename Parser.expectTypename :=
  expect.map fun _ _ htoken => payload_eq htoken

/-! ### Repetition -/

theorem iterate {step : α → Parser (Option α)} {step' : β → Parser (Option β)} {value : α}
    {value' : β} (hvalue : related value value')
    (hstep : ∀ value value', related value value' →
      c.Parsers (Option.Rel related) (step value) (step' value')) :
    c.Parsers related (Parser.iterate step value) (Parser.iterate step' value') := by
  intro stream stream' hstreams
  have hresults := hstep _ _ hvalue _ _ hstreams
  rw [Parser.iterate.eq_def step']
  fun_induction Parser.iterate step value stream generalizing value' stream' with
  | case1 value stream failure next hfails =>
      obtain ⟨failure', next', hfails', hfailure⟩ := (hfails ▸ hresults).of_error
      rw [hfails']
      exact .error hfailure
  | case2 value stream next hstops =>
      obtain ⟨taken, next', hstops', hnone, hnext⟩ := (hstops ▸ hresults).of_ok
      cases hnone
      rw [hstops']
      exact .ok hvalue hnext
  | case3 value stream extended next hextends hprogress ih =>
      -- as much is left on both sides, so that both go on or neither does
      obtain ⟨taken, next', hextends', hsome, hnext⟩ := (hextends ▸ hresults).of_ok
      cases hsome with
      | some hextended =>
          rw [hstreams.remaining_eq, hnext.remaining_eq] at hprogress
          simp only [hextends', hprogress, dif_pos]
          rw [Parser.iterate.eq_def step']
          exact ih hextended _ hnext (hstep _ _ hextended _ _ hnext)
  | case4 value stream extended next hextends hstuck =>
      obtain ⟨taken, next', hextends', hsome, hnext⟩ := (hextends ▸ hresults).of_ok
      cases hsome with
      | some hextended =>
          rw [hstreams.remaining_eq, hnext.remaining_eq] at hstuck
          simp only [hextends', hstuck, dif_neg, not_false_eq_true]
          exact .ok hextended hnext

theorem many {step : Parser (Option α)} {step' : Parser (Option β)}
    (hstep : c.Parsers (Option.Rel related) step step') :
    c.Parsers (List.Forall₂ related) (Parser.many step) (Parser.many step') := by
  rw [Parser.many_eq_iterate, Parser.many_eq_iterate]
  refine iterate .nil fun values values' hvalues => hstep.map fun taken taken' htaken => ?_
  cases htaken with
  | none => exact .none
  | some hvalue => exact .some (List.rel_append hvalues (.cons hvalue .nil))

/-! ### Lists -/

section Lists

variable (hitem : c.Parsers related parser other)

include hitem

/-- Both sides stop when a token has been taken, or both read an item. -/
theorem itemUnless {taken taken' : Option Token} (htaken : Option.Rel c.token taken taken') :
    c.Parsers (Option.Rel related)
      (if taken.isSome then Pure.pure none else some <$> parser)
      (if taken'.isSome then Pure.pure none else some <$> other) := by
  cases htaken with
  | none => exact hitem.map fun _ _ hvalue => .some hvalue
  | some => exact .pure .none

theorem itemIf {taken taken' : Option Token} (htaken : Option.Rel c.token taken taken') :
    c.Parsers (Option.Rel related)
      (if taken.isSome then some <$> parser else Pure.pure none)
      (if taken'.isSome then some <$> other else Pure.pure none) := by
  cases htaken with
  | none => exact .pure .none
  | some => exact hitem.map fun _ _ hvalue => .some hvalue

theorem manyUntil {close : Kind} :
    c.Parsers (List.Forall₂ related) (Parser.manyUntil close parser)
      (Parser.manyUntil close other) :=
  many (take?.bind fun _ _ htaken => hitem.itemUnless htaken)

theorem commaSeparated :
    c.Parsers (List.Forall₂ related) (Parser.commaSeparated parser)
      (Parser.commaSeparated other) :=
  hitem.bind fun _ _ hfirst => (many (take?.bind fun _ _ htaken => hitem.itemIf htaken)).bind
    fun _ _ hrest => .pure (.cons hfirst hrest)

theorem parenthesizedList :
    c.Parsers (List.Forall₂ related) (Parser.parenthesizedList parser)
      (Parser.parenthesizedList other) := by
  refine expectSymbol.bind fun _ _ _ => take?.bind fun taken taken' htaken => ?_
  cases htaken with
  | none =>
      exact hitem.commaSeparated.bind fun _ _ hitems => expectSymbol.bind fun _ _ _ => .pure hitems
  | some => exact .pure .nil

end Lists

end Parsers

end Correspondence

end ClassLang
