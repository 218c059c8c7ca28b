import ClassLang.Grammar.Reading
import ClassLang.Proofs.Reading.Approximation

/-! # The limits

Reading fails where rules nest too deep or an integer literal is too long. Such
failures aside, a looser limit changes nothing: whatever is answered within
tight limits is answered within looser ones.
-/

namespace ClassLang

/-- The failure is that of rules that nest too deep. -/
def Failure.IsNesting : Failure → Prop
  | .grammatical error => error.cause = .nestingTooDeep
  | _ => False

/-- The failure is that of an integer literal with too many digits. -/
def Failure.IsTooLong (failure : Failure) : Prop := ∃ digits, failure = .integerTooLong digits

/-- The failure says nothing about the text but that it exceeds a limit. -/
def Failure.IsLimit (failure : Failure) : Prop :=
  failure.IsNesting ∨ ∃ digits, failure = .integerTooLong digits

namespace Level

open ClassLang.Parser

/-- By the rules of the other level everything is read as by those of this one, wherever this
one does not fail for an excuse. -/
structure Approximates (excused : Failure → Prop) (level other : Level) : Prop where
  integer (token : Token) : (level.integer token).Approximates excused (other.integer token)
  read {α : Type} (enclosing : Option String) (rule : Rule α) :
    (level.read enclosing rule).Approximates excused (other.read enclosing rule)

namespace Approximates

variable {excused : Failure → Prop} {level other : Level}
  (happrox : level.Approximates excused other) (enclosing : Option String)

include happrox

theorem mono {allowed : Failure → Prop}
    (hallowed : ∀ failure, excused failure → allowed failure) : level.Approximates allowed other :=
  ⟨fun token => (happrox.integer token).mono hallowed,
    fun enclosing rule => (happrox.read enclosing rule).mono hallowed⟩

theorem inherits : level.Inherits (Parser.Approximates excused) other :=
  ⟨inherited_approximates excused, happrox.integer, happrox.read⟩

/-- Every rule keeps the approximation of the rules one level further in. -/
theorem apply {α : Type} (rule : Rule α) :
    (level.apply enclosing rule).Approximates excused (other.apply enclosing rule) :=
  happrox.inherits.apply enclosing rule

theorem wholeExpression :
    level.wholeExpression.Approximates excused other.wholeExpression :=
  (happrox.read none _).bind fun _ => .refl

end Approximates

/-- No rule may nest at all. -/
theorem bounded_zero_read {α : Type} {digits : Option Nat} {enclosing : Option String}
    {rule : Rule α} {stream : TokenStream} :
    (bounded digits 0).read enclosing rule stream =
      .error (.grammatical ⟨.nestingTooDeep, stream.buffered⟩) stream :=
  rfl

theorem bounded_succ_read {α : Type} {digits : Option Nat} {depth : Nat}
    {enclosing : Option String} {rule : Rule α} :
    (bounded digits (depth + 1)).read enclosing rule = (bounded digits depth).apply enclosing rule :=
  rfl

theorem integerDigits_bounded (digits : Option Nat) (depth : Nat) :
    (bounded digits depth).integerDigits = digits := by
  cases depth <;> rfl

/-- Deeper nesting changes nothing that is read without it. -/
theorem bounded_approximates_succ (digits : Option Nat) (depth : Nat) :
    (bounded digits depth).Approximates Failure.IsNesting (bounded digits (depth + 1)) := by
  induction depth with
  | zero =>
      refine ⟨fun token => .refl, fun enclosing rule stream => .inl ?_⟩
      exact ⟨_, _, bounded_zero_read, rfl⟩
  | succ depth ih => exact ⟨fun token => .refl, fun enclosing rule => ih.apply enclosing rule⟩

theorem bounded_approximates {digits : Option Nat} {depth deeper : Nat} (hle : depth ≤ deeper) :
    (bounded digits depth).Approximates Failure.IsNesting (bounded digits deeper) := by
  induction hle with
  | refl => exact ⟨fun token => .refl, fun enclosing rule => .refl⟩
  | @step deeper _ ih =>
      have hsucc := bounded_approximates_succ digits deeper
      exact ⟨fun token => (ih.integer token).trans (hsucc.integer token),
        fun enclosing rule => (ih.read enclosing rule).trans (hsucc.read enclosing rule)⟩

/-- Without a bound on the digits of integers only what exceeds it is read differently. -/
theorem bounded_approximates_unbounded (digits : Option Nat) (depth : Nat) :
    (bounded digits depth).Approximates Failure.IsTooLong (bounded none depth) := by
  have hinteger (depth : Nat) (token : Token) :
      ((bounded digits depth).integer token).Approximates Failure.IsTooLong
        ((bounded none depth).integer token) := by
    intro stream
    unfold integer
    rw [integerDigits_bounded, integerDigits_bounded]
    by_cases hlong : digits.any (· < token.payload.toList.length)
    · exact .inl ⟨_, stream, by rw [if_pos hlong]; rfl, ⟨_, rfl⟩⟩
    · exact .inr (by rw [if_neg hlong]; rfl)
  induction depth with
  | zero => exact ⟨hinteger 0, fun enclosing rule => .refl⟩
  | succ depth ih => exact ⟨hinteger (depth + 1), fun enclosing rule => ih.apply enclosing rule⟩

/-- Without a bound on the digits of integers nothing is read differently but for the limits. -/
theorem bounded_approximates_none (digits : Option Nat) (depth : Nat) :
    (bounded digits depth).Approximates Failure.IsLimit (bounded none depth) :=
  (bounded_approximates_unbounded digits depth).mono fun _ => .inr

end Level

/-- The parser fails on the stream because rules nest too deep. -/
def Parser.Nests {α : Type} (parser : Parser α) (stream : TokenStream) : Prop :=
  ∃ failure next, parser stream = .error failure next ∧ failure.IsNesting

/-- What is read within a nesting depth is read at every greater depth. -/
theorem Parser.Yields.deeper {α : Type} {digits : Option Nat} {depth deeper : Nat}
    {enclosing : Option String} {rule : Rule α} {stream next : TokenStream} {value : α}
    (hyields : Yields ((Level.bounded digits depth).read enclosing rule) stream value next)
    (hle : depth ≤ deeper) :
    Yields ((Level.bounded digits deeper).read enclosing rule) stream value next :=
  ((Level.bounded_approximates hle).read enclosing rule).yields hyields

/-- The rule reads the value at a depth that is enough and at every greater one. At a lesser one,
too, it reads the value, unless rules nest too deep there. -/
def Level.ReadsWithin {α : Type} (digits : Option Nat) (enough : Nat) (enclosing : Option String)
    (rule : Rule α) (stream : TokenStream) (value : α) (next : TokenStream) : Prop :=
  ∀ depth, (depth < enough ∧ ((Level.bounded digits depth).read enclosing rule).Nests stream) ∨
    Parser.Yields ((Level.bounded digits depth).read enclosing rule) stream value next

theorem Parser.Yields.readsWithin {α : Type} {digits : Option Nat} {enough : Nat}
    {enclosing : Option String} {rule : Rule α} {stream next : TokenStream} {value : α}
    (hyields : Yields ((Level.bounded digits enough).read enclosing rule) stream value next) :
    Level.ReadsWithin digits enough enclosing rule stream value next := by
  intro depth
  rcases Nat.lt_or_ge depth enough with hlt | hle
  · have happrox : (Level.bounded digits depth).Approximates Failure.IsNesting _ :=
      Level.bounded_approximates (Nat.le_of_lt hlt)
    rcases happrox.read enclosing rule stream with hnests | heq
    · exact .inl ⟨hlt, hnests⟩
    · exact .inr (heq.trans hyields)
  · exact .inr (hyields.deeper hle)

end ClassLang
