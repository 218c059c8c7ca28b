import ClassLang.Proofs.Reading.Inheritance
import ClassLang.Proofs.Reading.Rounds

/-! # Approximation

A parser approximates another when the other answers the same wherever the
first does not fail for one of certain excuses. Every way to build a parser
from parsers keeps this relation.
-/

namespace ClassLang.Parser

/-- The other parser answers as this one does wherever this one does not fail for an excuse. -/
def Approximates {α : Type} (excused : Failure → Prop) (parser other : Parser α) : Prop :=
  ∀ stream, (∃ failure next, parser stream = .error failure next ∧ excused failure) ∨
    parser stream = other stream

namespace Approximates

variable {α β : Type} {excused : Failure → Prop} {parser other third : Parser α}

theorem refl : Approximates excused parser parser := fun _ => .inr rfl

theorem trans (hfirst : Approximates excused parser other)
    (hsecond : Approximates excused other third) : Approximates excused parser third := by
  intro stream
  obtain hexcused | heq := hfirst stream
  · exact .inl hexcused
  · rw [heq]
    exact hsecond stream

theorem mono {allowed : Failure → Prop} (happrox : Approximates excused parser other)
    (hallowed : ∀ failure, excused failure → allowed failure) :
    Approximates allowed parser other := by
  intro stream
  obtain ⟨failure, next, herror, hexcused⟩ | heq := happrox stream
  · exact .inl ⟨failure, next, herror, hallowed failure hexcused⟩
  · exact .inr heq

/-- What has been yielded stays so. -/
theorem yields (happrox : Approximates excused parser other) {stream next : TokenStream}
    {value : α} (hyields : Yields parser stream value next) : Yields other stream value next := by
  obtain ⟨_, _, herror, _⟩ | heq := happrox stream
  · simp [Yields, herror] at hyields
  · exact Eq.trans heq.symm hyields

/-- A failure that is not excused stays, too. -/
theorem error (happrox : Approximates excused parser other) {stream next : TokenStream}
    {failure : Failure} (herror : parser stream = .error failure next) :
    excused failure ∨ other stream = .error failure next := by
  obtain ⟨failure', next', herror', hexcused⟩ | heq := happrox stream
  · obtain ⟨rfl, rfl⟩ := EStateM.Result.error.inj (herror.symm.trans herror')
    exact .inl hexcused
  · exact .inr (heq.symm.trans herror)

theorem bind {continuation rest : α → Parser β} (hfirst : Approximates excused parser other)
    (hrest : ∀ value, Approximates excused (continuation value) (rest value)) :
    Approximates excused (parser >>= continuation) (other >>= rest) := by
  intro stream
  change (∃ failure next, EStateM.bind parser continuation stream = .error failure next ∧ _) ∨
    EStateM.bind parser continuation stream = EStateM.bind other rest stream
  unfold EStateM.bind
  obtain ⟨failure, next, herror, hexcused⟩ | heq := hfirst stream
  · exact .inl ⟨failure, next, by rw [herror], hexcused⟩
  · rw [← heq]
    cases parser stream with
    | ok value next => exact hrest value next
    | error failure next => exact .inr rfl

theorem map {f : α → β} (happrox : Approximates excused parser other) :
    Approximates excused (f <$> parser) (f <$> other) := by
  rw [← bind_pure_comp, ← bind_pure_comp]
  exact happrox.bind fun _ => .refl

theorem iterate {step extension : α → Parser (Option α)} {value : α}
    (hstep : ∀ value, Approximates excused (step value) (extension value)) :
    Approximates excused (Parser.iterate step value) (Parser.iterate extension value) := by
  intro stream
  rw [Parser.iterate.eq_def extension]
  fun_induction Parser.iterate step value stream with
  | case1 value stream failure next herror =>
      obtain hexcused | hother := (hstep value).error herror
      · exact .inl ⟨failure, next, rfl, hexcused⟩
      · simp [hother]
  | case2 value stream next hstop =>
      have hother := (hstep value).yields hstop
      unfold Yields at hother
      simp [hother]
  | case3 value stream extended next hnext hprogress ih =>
      have hother := (hstep value).yields hnext
      unfold Yields at hother
      simp only [hother, hprogress, dif_pos]
      rw [Parser.iterate.eq_def extension]
      exact ih
  | case4 value stream extended next hnext hstuck =>
      have hother := (hstep value).yields hnext
      unfold Yields at hother
      simp [hother, hstuck]

theorem many {step extension : Parser (Option α)}
    (hstep : Approximates excused step extension) :
    Approximates excused (Parser.many step) (Parser.many extension) := by
  rw [many_eq_iterate, many_eq_iterate]
  exact .iterate fun _ => hstep.map

end Approximates

/-- Parsers made of approximating ones approximate what is made of the others. -/
theorem inherited_approximates (excused : Failure → Prop) : Inherited (Approximates excused) where
  pure _ := .refl
  fail _ := .refl
  bind := .bind
  peek := .refl
  advance := .refl
  iterate _ := .iterate
  many := .many

end ClassLang.Parser
