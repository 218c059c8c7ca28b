import ClassLang.Proofs.Reading.CorrespondingRules
import ClassLang.Proofs.Stream.Course

/-! # Corresponding texts

A text is read by running a parser from the beginning of what the text has in store. Texts whose
courses correspond are read as programs or expressions of the same shape, or fail alike.
-/

namespace ClassLang

open TokenStream

/-- Run a parser from the beginning of what a text has in store. -/
def Parser.runOn {α : Type} (parser : Parser α) (course : Upcoming) : Except Failure α :=
  match scan course with
  | .error (error, _) => .error (.lexical error)
  | .ok stream =>
      match parser stream with
      | .ok value _ => .ok value
      | .error failure _ => .error failure

theorem Parser.run_eq_runOn {α : Type} (parser : Parser α) (source : Source) :
    parser.run source = parser.runOn source.course := by
  rw [run, runOn, ofSource, Source.course]
  cases scan (.ofText 0 source.text) <;> rfl

namespace Correspondence

variable {c : Correspondence}

/-- Two texts are read alike: as related values, or both with failures that correspond. -/
inductive Readings (c : Correspondence) {α β : Type} (related : α → β → Prop) :
    Except Failure α → Except Failure β → Prop
  | ok {value value'} : related value value' → Readings c related (.ok value) (.ok value')
  | error {failure failure'} : c.Failures failure failure' →
      Readings c related (.error failure) (.error failure')

theorem Parsers.runOn {α β : Type} {related : α → β → Prop} {parser : Parser α} {other : Parser β}
    {course course' : Upcoming} (hparsers : c.Parsers related parser other)
    (hcourses : c.Courses course course') :
    c.Readings related (parser.runOn course) (other.runOn course') := by
  unfold Parser.runOn
  rcases hcourses.scan with
    ⟨start, start', hscan, hscan', hstreams⟩ | ⟨error, error', _, _, hscan, hscan', herror⟩
  · have hresults := hparsers _ _ hstreams
    simp only [hscan, hscan']
    generalize parser start = result at hresults ⊢
    generalize other start' = result' at hresults ⊢
    cases hresults with
    | ok hvalue => exact .ok hvalue
    | error hfailure => exact .error hfailure
  · simp only [hscan, hscan']
    exact .error (.lexical herror)

variable {source source' : Source}

theorem readings_program (hcourses : c.Courses source.course source'.course) :
    c.Readings (fun first second => first.same second) (Program.read source)
      (Program.read source') := by
  rw [Program.read, Program.readWithin, Program.read, Program.readWithin, Parser.run_eq_runOn,
    Parser.run_eq_runOn]
  exact ((c.levels_ofDepth nestingLimit).read none .module).runOn hcourses

theorem readings_expression (hcourses : c.Courses source.course source'.course) :
    c.Readings Expr.Alike (Expr.read source) (Expr.read source') := by
  rw [Expr.read, Expr.readWithin, Expr.read, Expr.readWithin, Parser.run_eq_runOn,
    Parser.run_eq_runOn]
  exact (c.levels_ofDepth nestingLimit).wholeExpression.runOn hcourses

end Correspondence

end ClassLang
