import ClassLang.Proofs.Reading.Locality
import ClassLang.Proofs.Report.Place

/-! # A refusal looks no further than one token

A text is refused for the tokens that have been taken and for the one that is shown. What stands
behind them has not been looked at: it may be changed at will, or not even consist of tokens, and
the refusal stays the same.
-/

namespace ClassLang

open TokenStream

variable {source source' : Source} {error : GrammarError}

/-! ## Refusals of parsers -/

namespace Parser

variable {α β : Type} {parser : Parser α} {stream next : TokenStream}

/-- What the parser refuses it refuses wherever it takes the same tokens and is then shown the
same. -/
def RefusesLocally (parser : Parser α) : Prop :=
  ∀ stream error next, parser stream = .error (.grammatical error) next →
    ∃ front, stream.Passes front next ∧ ∀ stream' next', stream'.Passes front next' →
      next'.buffered = next.buffered → parser stream' = .error (.grammatical error) next'

namespace RefusesLocally

/-- A parser that refuses nothing. -/
theorem of_ne (hne : ∀ stream error next, parser stream ≠ .error (.grammatical error) next) :
    RefusesLocally parser :=
  fun stream error next herror => absurd herror (hne stream error next)

theorem pure (value : α) : RefusesLocally (Pure.pure value : Parser α) :=
  of_ne fun _ _ _ herror => by cases herror

theorem peek : RefusesLocally Parser.peek :=
  of_ne fun _ _ _ herror => by cases herror

/-- Whatever is failed for, it does not depend on the stream. -/
theorem fail (failure : Failure) : RefusesLocally (throw failure : Parser α) := by
  intro stream error next herror
  obtain ⟨rfl, rfl⟩ := EStateM.Result.error.inj herror
  refine ⟨[], .nil _, fun stream' next' hpasses _ => ?_⟩
  obtain rfl := Passes.nil_iff.mp hpasses
  rfl

theorem advance : RefusesLocally Parser.advance := by
  refine of_ne fun stream error next herror => ?_
  unfold Parser.advance EStateM.adaptExcept at herror
  cases hadvance : TokenStream.advance stream <;> simp [hadvance] at herror

/-- What is refused behind a value is refused for the tokens of both. -/
theorem bind {continuation : α → Parser β} (hlocal : Local parser)
    (hparser : RefusesLocally parser) (hrest : ∀ value, RefusesLocally (continuation value)) :
    RefusesLocally (parser >>= continuation) := by
  intro stream error next herror
  cases hvalue : parser stream with
  | ok value middle =>
      rw [bind_of_yields hvalue] at herror
      obtain ⟨front, hfront, htakes⟩ := hlocal _ _ _ hvalue
      obtain ⟨back, hback, hrefuses⟩ := hrest value _ _ _ herror
      refine ⟨front ++ back, hfront.append hback, fun stream' next' hpasses hshown => ?_⟩
      obtain ⟨middle', hfront', hback', hmiddle⟩ := hback.split_alike hpasses hshown
      rw [bind_of_yields (htakes _ _ hfront' hmiddle)]
      exact hrefuses _ _ hback' hshown
  | error failure last =>
      rw [bind_of_error hvalue] at herror
      obtain ⟨rfl, rfl⟩ := EStateM.Result.error.inj herror
      obtain ⟨front, hfront, hrefuses⟩ := hparser _ _ _ hvalue
      exact ⟨front, hfront, fun stream' next' hpasses hshown =>
        bind_of_error (hrefuses _ _ hpasses hshown)⟩

theorem map {f : α → β} (hlocal : Local parser) (hparser : RefusesLocally parser) :
    RefusesLocally (f <$> parser) := by
  rw [← bind_pure_comp]
  exact bind hlocal hparser fun _ => .pure _

section Repetition

variable {step : Parser (Option α)} {extension : α → Parser (Option α)}

theorem iterate (hlocal : ∀ value, Local (extension value))
    (hextension : ∀ value, RefusesLocally (extension value)) (value : α) :
    RefusesLocally (Parser.iterate extension value) := by
  intro stream error next herror
  fun_induction Parser.iterate extension value stream with
  | case1 value stream failure last hfails =>
      obtain ⟨rfl, rfl⟩ := EStateM.Result.error.inj herror
      obtain ⟨front, hfront, hrefuses⟩ := hextension _ _ _ _ hfails
      refine ⟨front, hfront, fun stream' next' hpasses hshown => ?_⟩
      rw [Parser.iterate, hrefuses _ _ hpasses hshown]
  | case2 => cases herror
  | case3 value stream extended after hextends hprogress ih =>
      obtain ⟨front, hfront, htakes⟩ := hlocal _ _ _ _ hextends
      obtain ⟨back, hback, hrefuses⟩ := ih herror
      -- the step takes the same tokens there, so that it makes progress as it does here
      refine ⟨front ++ back, hfront.append hback, fun stream' next' hpasses hshown => ?_⟩
      obtain ⟨middle', hfront', hback', hmiddle⟩ := hback.split_alike hpasses hshown
      have hprogress' := (Local.progress_iff hfront').mpr ((Local.progress_iff hfront).mp hprogress)
      have hextends' := htakes _ _ hfront' hmiddle
      unfold Yields at hextends'
      rw [Parser.iterate]
      simp only [hextends', hprogress', dif_pos]
      exact hrefuses _ _ hback' hshown
  | case4 => cases herror

theorem many (hlocal : Local step) (hstep : RefusesLocally step) :
    RefusesLocally (Parser.many step) := by
  rw [many_eq_iterate]
  exact .iterate (fun _ => hlocal.map) (fun _ => hstep.map hlocal) []

end Repetition

end RefusesLocally

/-- The relation of a parser to itself that reads locally and refuses locally. -/
def LooksNoFurther (parser other : Parser α) : Prop :=
  parser = other ∧ Local parser ∧ RefusesLocally parser

theorem inherited_looksNoFurther : Inherited LooksNoFurther where
  pure value := ⟨rfl, .pure, .pure value⟩
  fail failure := ⟨rfl, (inherited_local.fail failure).2, .fail failure⟩
  bind := by
    rintro _ _ parser _ continuation rest ⟨rfl, hlocal, hparser⟩ hrest
    obtain rfl : continuation = rest := funext fun value => (hrest value).1
    exact ⟨rfl, hlocal.bind fun value => (hrest value).2.1,
      .bind hlocal hparser fun value => (hrest value).2.2⟩
  peek := ⟨rfl, .peek, .peek⟩
  advance := ⟨rfl, .advance, .advance⟩
  iterate := by
    intro _ step extension value hstep
    obtain rfl : step = extension := funext fun value => (hstep value).1
    exact ⟨rfl, .iterate fun value => (hstep value).2.1,
      .iterate (fun value => (hstep value).2.1) (fun value => (hstep value).2.2) value⟩
  many := by
    rintro _ step _ ⟨rfl, hlocal, hstep⟩
    exact ⟨rfl, .many hlocal, .many hlocal hstep⟩

end Parser

/-- Every rule refuses locally. -/
theorem Level.looksNoFurther_bounded (digits : Option Nat) (depth : Nat) :
    (bounded digits depth).Inherits Parser.LooksNoFurther (bounded digits depth) :=
  inherits_bounded Parser.inherited_looksNoFurther digits depth

theorem Level.Inherits.wholeExpression
    {related : {α : Type} → Parser α → Parser α → Prop} {level other : Level}
    (hlevel : level.Inherits related other) :
    related level.wholeExpression other.wholeExpression :=
  hlevel.bind (hlevel.read none _) fun _ => hlevel.bind (hlevel.expect _) fun _ => hlevel.pure _

/-! ## Tokens that have been scanned -/

namespace TokenStream

variable {course : Upcoming} {stream next last : TokenStream} {token shown : Token}
  {front : List Token}

theorem Hands.remaining_eq (hhands : stream.Hands token next) (hlexed : stream.upcoming.Lexed) :
    stream.remaining = next.remaining + 1 := by
  have hscan := hhands.scan_upcoming
  rw [remaining, hhands.1, if_neg Bool.false_ne_true, remaining]
  cases hupcoming : stream.upcoming with
  | endOfText offset =>
      rw [hupcoming] at hscan
      obtain rfl := Except.ok.inj hscan
      simp [atEnd, Token.endOfText, Upcoming.length]
  | token first rest =>
      rw [hupcoming] at hscan hlexed
      obtain rfl := Except.ok.inj hscan
      cases hlexed with
      | token hkind _ => simp [atEnd, hkind, Upcoming.length]
  | failure => rw [hupcoming] at hscan; cases hscan
  | stuck => rw [hupcoming] at hscan; cases hscan

/-- Each token that is handed out leaves one less. -/
theorem Passes.remaining_eq (hpasses : stream.Passes front last)
    (hlexed : stream.upcoming.Lexed) : stream.remaining = last.remaining + front.length := by
  induction hpasses with
  | nil => rfl
  | cons hhands _ ih =>
      rw [hhands.remaining_eq hlexed, ih (lexed_of_scan hlexed hhands.scan_upcoming),
        List.length_cons, Nat.add_assoc]

/-- Tokens are handed out up to one that is shown just when they are found in this order. -/
theorem exists_passes_iff (hlexed : course.Lexed) :
    (∃ start last, scan course = .ok start ∧ start.Passes front last ∧ last.buffered = shown) ↔
      front ++ [shown] <+: course.found := by
  induction front generalizing course with
  | nil =>
      simp only [Passes.nil_iff, List.nil_append]
      cases course with
      | endOfText | token => simp [scan, Upcoming.found, eq_comm]
      | failure | stuck => simp [scan, Upcoming.found]
  | cons token front ih =>
      cases hlexed with
      | endOfText offset =>
          -- from the end of the text nothing is handed out
          simp only [Upcoming.found, List.cons_append, List.cons_prefix_cons, List.prefix_nil,
            List.append_eq_nil_iff, List.cons_ne_nil, and_false, iff_false]
          rintro ⟨start, last, hscan, hpasses, -⟩
          obtain rfl := Except.ok.inj hscan
          obtain ⟨_, hhands, -⟩ := Passes.cons_iff.mp hpasses
          exact hhands.kind_ne (hhands.buffered_eq ▸ rfl)
      | @token first rest hkind hrest =>
          rw [Upcoming.found, List.cons_append, List.cons_prefix_cons, ← ih hrest]
          constructor
          · rintro ⟨start, last, hscan, hpasses, hshown⟩
            obtain rfl := Except.ok.inj hscan
            obtain ⟨middle, hhands, hpasses⟩ := Passes.cons_iff.mp hpasses
            exact ⟨hhands.buffered_eq.symm, middle, last, hhands.scan_upcoming, hpasses, hshown⟩
          · rintro ⟨rfl, middle, last, hscan, hpasses, hshown⟩
            exact ⟨_, last, rfl, .cons (hands_of_scan hkind hscan) hpasses, hshown⟩
      | failure | stuck => simp [scan, Upcoming.found]

end TokenStream

/-- How many tokens of a source have been scanned when the parser ends, with success or not: those
that have been handed out, and the one that is shown. -/
def Parser.scanned {α : Type} (parser : Parser α) (source : Source) : Nat :=
  match ofSource source with
  | .error _ => 0
  | .ok start =>
      match parser start with
      | .ok _ last | .error _ last => start.remaining - last.remaining + 1

/-- How many tokens have been scanned when the reading of a text of classes and interfaces ends. -/
def Program.scanned (source : Source) : Nat :=
  ((Level.ofDepth nestingLimit).read none .module).scanned source

/-- How many tokens have been scanned when the reading of a text that is one expression ends. -/
def Expr.scanned (source : Source) : Nat :=
  (Level.ofDepth nestingLimit).wholeExpression.scanned source

namespace Parser

variable {α : Type} {parser : Parser α}

theorem run_eq_refusal_iff :
    parser.run source = .error (.grammatical error) ↔
      ∃ start last, ofSource source = .ok start ∧
        parser start = .error (.grammatical error) last := by
  unfold run
  cases ofSource source with
  | error error => simp
  | ok start => cases hparser : parser start <;> simp [hparser]

/-- Where a parser that looks no further refuses a source, the tokens that have been scanned are
those that it has taken and the one that is shown. -/
theorem LooksNoFurther.exists_front (hlooks : LooksNoFurther parser parser)
    (hrun : parser.run source = .error (.grammatical error)) :
    ∃ front shown, parser.scanned source = front.length + 1 ∧
      front ++ [shown] <+: source.course.found ∧
      ∀ source', front ++ [shown] <+: source'.course.found →
        parser.run source' = .error (.grammatical error) := by
  obtain ⟨start, last, hstart, hparser⟩ := run_eq_refusal_iff.mp hrun
  obtain ⟨front, hfront, hrefuses⟩ := hlooks.2.2 _ _ _ hparser
  have hscan := ofSource_eq_ok_iff.mp hstart
  have hlexed : source.course.Lexed := Upcoming.lexed_ofText 0 source.text
  have hremaining := hfront.remaining_eq (lexed_of_scan hlexed hscan)
  refine ⟨front, last.buffered, ?_, (exists_passes_iff hlexed).mp ⟨start, last, hscan, hfront, rfl⟩,
    fun source' hprefix => ?_⟩
  · simp only [scanned, hstart, hparser]
    omega
  · obtain ⟨start', last', hscan', hfront', hshown⟩ :=
      (exists_passes_iff (Upcoming.lexed_ofText 0 source'.text)).mpr hprefix
    exact run_eq_refusal_iff.mpr
      ⟨start', last', ofSource_eq_ok_iff.mpr hscan', hrefuses _ _ hfront' hshown⟩

theorem LooksNoFurther.scanned_le (hlooks : LooksNoFurther parser parser)
    (hrun : parser.run source = .error (.grammatical error)) :
    parser.scanned source ≤ source.course.found.length := by
  obtain ⟨front, shown, hscanned, hprefix, -⟩ := hlooks.exists_front hrun
  have hlength := hprefix.length_le
  rwa [List.length_append, List.length_singleton, ← hscanned] at hlength

/-- Any source with the same tokens, as far as they have been scanned, is refused as well. -/
theorem LooksNoFurther.run_eq_refusal (hlooks : LooksNoFurther parser parser)
    (hrun : parser.run source = .error (.grammatical error))
    (hsame : source'.course.found.take (parser.scanned source) =
      source.course.found.take (parser.scanned source)) :
    parser.run source' = .error (.grammatical error) := by
  obtain ⟨front, shown, hscanned, hprefix, hrefuses⟩ := hlooks.exists_front hrun
  refine hrefuses source' ?_
  have htake := List.prefix_iff_eq_take.mp hprefix
  rw [List.length_append, List.length_singleton, ← hscanned, ← hsame] at htake
  rw [htake]
  exact List.take_prefix _ _

end Parser

/-! ## Whole texts -/

namespace GrammarError

/-- The compile errors that report the error in the two sources have one code and one message, and
they are about the same token. -/
def ReportedAlike (error : GrammarError) (source source' : Source) : Prop :=
  ∃ refusal refusal', error.report source = .ok refusal ∧ error.report source' = .ok refusal' ∧
    refusal.stage = refusal'.stage ∧ refusal.diagnostic.code = refusal'.diagnostic.code ∧
    refusal.diagnostic.message = refusal'.diagnostic.message ∧
    refusal.tokens.map (·.token) = refusal'.tokens.map (·.token)

/-- An error about a token that begins within both texts is reported alike. -/
theorem ReportedAlike.of_pos_le (hpos : error.token.pos ≤ source.length)
    (hpos' : error.token.pos ≤ source'.length) : error.ReportedAlike source source' :=
  ⟨_, _, report_of_pos_le hpos, report_of_pos_le hpos', rfl, rfl, rfl, rfl⟩

end GrammarError

/-- **A refusal depends on the tokens that have been scanned and on nothing behind them.** Every
text with these tokens is refused as well, with the same error about the same token, however it
goes on. -/
theorem read_refused_by_scanned (source : Source) (error : GrammarError) :
    (Program.read source = .error (.grammatical error) →
      Program.scanned source ≤ source.course.found.length ∧
      ∀ source' : Source, source'.course.found.take (Program.scanned source) =
          source.course.found.take (Program.scanned source) →
        Program.read source' = .error (.grammatical error) ∧ error.ReportedAlike source source') ∧
    (Expr.read source = .error (.grammatical error) →
      Expr.scanned source ≤ source.course.found.length ∧
      ∀ source' : Source, source'.course.found.take (Expr.scanned source) =
          source.course.found.take (Expr.scanned source) →
        Expr.read source' = .error (.grammatical error) ∧ error.ReportedAlike source source') := by
  have hlevel := Level.looksNoFurther_bounded (some Failure.integerDigits) nestingLimit
  constructor
  · intro hread
    have hlooks := hlevel.read none .module
    refine ⟨hlooks.scanned_le hread, fun source' hsame => ?_⟩
    have hread' : Program.read source' = _ := hlooks.run_eq_refusal hread hsame
    exact ⟨hread', .of_pos_le
      ((Program.arises_of_read_error hread).pos_le rfl)
      ((Program.arises_of_read_error hread').pos_le rfl)⟩
  · intro hread
    have hlooks := hlevel.wholeExpression
    refine ⟨hlooks.scanned_le hread, fun source' hsame => ?_⟩
    have hread' : Expr.read source' = _ := hlooks.run_eq_refusal hread hsame
    exact ⟨hread', .of_pos_le
      ((Expr.arises_of_read_error hread).pos_le rfl)
      ((Expr.arises_of_read_error hread').pos_le rfl)⟩

/-- A member without a type is refused when the brace behind its modifier has been scanned, and a
target when the parenthesis behind the value has been. Texts that break off in the middle of a
literal right behind them are refused for the same reasons. -/
theorem read_refused_by_scanned_literal :
    (let source := Source.ofString "main" "class Point { public } class"
      let source' := Source.ofString "" "class Point { public }'"
      let error : GrammarError := ⟨.expectedToken .typename, ⟨.symbol .braceClose, none, 21, 22⟩⟩
      Program.read source = .error (.grammatical error) ∧ Program.scanned source = 5 ∧
        source'.course.found.length = 5 ∧
        source'.course.found.take (Program.scanned source) =
          source.course.found.take (Program.scanned source) ∧
        Program.read source' = .error (.grammatical error) ∧ error.ReportedAlike source source') ∧
    let source := Source.ofString "main" "f(1 = 2) + 3"
    let source' := Source.ofString "" "f(1 = 2)'+ 3"
    let error : GrammarError := ⟨.invalidAssignmentTarget, ⟨.symbol .assign, none, 4, 5⟩⟩
    Expr.read source = .error (.grammatical error) ∧ Expr.scanned source = 6 ∧
      source'.course.found.length = 6 ∧
      source'.course.found.take (Expr.scanned source) =
        source.course.found.take (Expr.scanned source) ∧
      Expr.read source' = .error (.grammatical error) ∧ error.ReportedAlike source source' := by
  constructor
  · intro source source' error
    have hread : Program.read source = .error (.grammatical error) := by decide +kernel
    have hsame : source'.course.found.take (Program.scanned source) =
        source.course.found.take (Program.scanned source) := by decide +kernel
    exact ⟨hread, by decide +kernel, by decide +kernel, hsame,
      ((read_refused_by_scanned source error).1 hread).2 source' hsame⟩
  · intro source source' error
    have hread : Expr.read source = .error (.grammatical error) := by decide +kernel
    have hsame : source'.course.found.take (Expr.scanned source) =
        source.course.found.take (Expr.scanned source) := by decide +kernel
    exact ⟨hread, by decide +kernel, by decide +kernel, hsame,
      ((read_refused_by_scanned source error).2 hread).2 source' hsame⟩

end ClassLang
