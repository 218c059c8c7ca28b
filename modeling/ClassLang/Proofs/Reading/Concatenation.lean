import ClassLang.Proofs.Reading.Agreement
import ClassLang.Proofs.Reading.Locality
import ClassLang.Proofs.Stream.Concatenation

/-! # Reading one text after another

A declaration ends with the brace that closes it, and what stands behind the brace is nothing to
it. So a text of declarations, a line feed and another text are read as the declarations of the
one and then those of the other, and what fails in the other text fails there in the same way.
-/

namespace ClassLang

open TokenStream

namespace Parser

variable {α : Type} {item : Parser α} {close : Kind} {stream : TokenStream}

/-- Wherever the parser yields a value, it has taken a token. -/
def Progresses (parser : Parser α) : Prop :=
  ∀ stream value next, Yields parser stream value next → next.remaining < stream.remaining

theorem Sound.progresses {phrase : List Token → α → Prop} (hitem : Sound item phrase)
    (hstart : Starts phrase fun _ => True) : Progresses item := by
  intro stream value next hyields
  obtain ⟨ts, hts, hphrase⟩ := hitem _ _ _ hyields
  obtain ⟨token, rest, rfl, _⟩ := hstart _ _ hphrase
  exact hts.remaining_lt (by simp)

theorem take?_of_kind (hkind : stream.buffered.kind = close) :
    take? close stream = (some <$> advance) stream := by
  rw [take?, bind_of_yields (yields_isAt.mpr ⟨rfl, rfl⟩), if_pos (decide_eq_true hkind)]

/-- Items up to a closing token end with this token. -/
theorem closes_manyUntil (hclose : close ≠ .endOfText) (hitem : Local item)
    (hprogress : Progresses item) : Closes (manyUntil close item) := by
  refine Closes.many ((inherited_local.take? close).2.bind fun _ =>
    (inherited_local.readUnless ⟨rfl, hitem⟩).2) (fun stream value next hstep => ?_)
      fun stream next hstep => ?_
  · obtain ⟨_, value', hvalue, _⟩ | ⟨_, _, _, hnone⟩ := (yields_untilStep hclose).mp hstep
    · exact hprogress _ _ _ hvalue
    · cases hnone
  · obtain ⟨_, _, _, hsome⟩ | ⟨closing, hkind, hhands, _⟩ := (yields_untilStep hclose).mp hstep
    · cases hsome
    · refine ⟨closing, hhands, fun stream' hshown => ?_⟩
      have htake := take?_of_kind (hshown ▸ hkind)
      change EStateM.bind (take? close) _ stream' = _
      rw [EStateM.bind, htake, map_apply, closing_apply]
      cases advance stream' <;> rfl

/-- A step that ends with a token is followed by what the text has in store behind it. -/
theorem runOn_many_of_closing {step : Parser (Option α)} {value : α} {course : Upcoming}
    {last : TokenStream} {front : List Token} (hscan : scan course = .ok stream)
    (hpasses : stream.Passes front last) (hopen : last.atEnd = false)
    (hstep : step stream = closing (some value) last) :
    (many step).runOn course = (value :: ·) <$> (many step).runOn last.upcoming := by
  rw [closing_apply] at hstep
  cases hnext : scan last.upcoming with
  | error error =>
      rw [advance_of_scan_error hopen hnext] at hstep
      simp only [runOn, hscan, hnext, many, hstep]
      rfl
  | ok next =>
      have hhands := hands_of_scan (of_decide_eq_false hopen) hnext
      rw [advance_of_scan hopen hnext] at hstep
      have hprogress := (hpasses.append (.single hhands)).remaining_lt (by simp)
      simp only [runOn, hscan, hnext, many_of_yields hstep hprogress, map_apply]
      cases many step next <;> rfl

end Parser

/-! ## Declarations -/

namespace Level

open ClassLang.Parser

variable {digits : Option Nat} {depth : Nat} {enclosing : Option String}

theorem progresses_member :
    Progresses ((bounded digits depth).read enclosing .member) := by
  refine (sound_member depth).progresses fun ts member hmember => ?_
  obtain ⟨token, rest, heq, _⟩ := hmember.head
  exact ⟨token, rest, heq, trivial⟩

theorem progresses_methodStub :
    Progresses ((bounded digits depth).read enclosing .methodStub) := by
  refine (sound_methodStub depth).progresses fun ts stub hstub => ?_
  obtain ⟨token, rest, heq, _⟩ := hstub.head
  exact ⟨token, rest, heq, trivial⟩

theorem closes_classDeclaration {token : Token} {access : Access} :
    Closes ((bounded digits depth).read enclosing (.classDeclaration token access)) := by
  cases depth with
  | zero => exact fun _ _ _ hyields => absurd hyields (by simp [Yields, bounded_zero_read])
  | succ depth =>
      have hlevel := local_bounded digits depth
      exact (hlevel.expect _).2.bind_closes fun _ => hlevel.expectTypename.2.bind_closes fun name =>
        hlevel.baseType.2.bind_closes fun base => (hlevel.typesAfter enclosing _).2.bind_closes
          fun interfaces => (hlevel.expectSymbol _).2.bind_closes fun _ => by
            rw [bind_pure_comp]
            exact (closes_manyUntil (by simp) (hlevel.read _ _).2 progresses_member).map

theorem closes_interfaceDeclaration {token : Token} {access : Access} :
    Closes ((bounded digits depth).read enclosing (.interfaceDeclaration token access)) := by
  cases depth with
  | zero => exact fun _ _ _ hyields => absurd hyields (by simp [Yields, bounded_zero_read])
  | succ depth =>
      have hlevel := local_bounded digits depth
      exact (hlevel.expect _).2.bind_closes fun _ => hlevel.expectTypename.2.bind_closes fun name =>
        (hlevel.typesAfter enclosing _).2.bind_closes fun bases =>
          (hlevel.expectSymbol _).2.bind_closes fun _ => by
            rw [bind_pure_comp]
            exact (closes_manyUntil (by simp) (hlevel.read _ _).2 progresses_methodStub).map

theorem closes_topLevel : Closes ((bounded digits depth).topLevel enclosing) := by
  have hlevel := local_bounded digits depth
  refine Local.peek.bind_closes fun token => hlevel.accessModifier.2.bind_closes fun access =>
    (hlevel.isAt _).2.bind_closes fun isClass => ?_
  split
  · exact closes_classDeclaration.map
  · refine (hlevel.isAt _).2.bind_closes fun isInterface => ?_
    split
    · exact closes_interfaceDeclaration.map
    · exact Local.peek.bind_closes fun _ _ _ _ hyields => absurd hyields not_yields_refuse

/-- Declarations up to the end of the text. -/
def declarations (level : Level) (enclosing : Option String) : Parser (List (TopLevel Token)) :=
  many do if ← isAt .endOfText then return none else some <$> level.topLevel enclosing

/-- A declaration is read where only its last token need be shown behind it. -/
theorem topLevelStep_closing {decl : TopLevel Token} {stream next : TokenStream}
    (hstep : Yields (do
        if ← isAt .endOfText then return none
        else some <$> (bounded digits depth).topLevel enclosing) stream (some decl) next) :
    ClosesAt (do
        if ← isAt .endOfText then return none
        else some <$> (bounded digits depth).topLevel enclosing) stream (some decl) next := by
  have hcases := yields_topLevelStep.mp hstep
  split at hcases
  next => simp at hcases
  next hopen =>
    obtain ⟨decl', hdecl, hsome⟩ := hcases
    obtain rfl := Option.some.inj hsome
    obtain ⟨front, middle, token, hfront, hhands, hcloses⟩ := closes_topLevel.map _ _ _
      (yields_map.mpr ⟨decl, hdecl, rfl⟩)
    refine ⟨front, middle, token, hfront, hhands, fun stream' middle' hpasses hshown => ?_⟩
    have hkind : stream'.buffered.kind ≠ .endOfText := by
      rw [hpasses.headD_buffered, hshown, ← hhands.buffered_eq, ← hfront.headD_buffered]
      simpa [atEnd] using hopen
    rw [bind_of_yields (yields_isAt.mpr ⟨rfl, rfl⟩), if_neg (by simpa using hkind)]
    exact hcloses _ _ hpasses hshown

/-- Behind the declarations of a text without failures, reading goes on with what follows. -/
theorem runOn_declarations_followedBy {course rest : Upcoming} {stream next : TokenStream}
    {decls : List (TopLevel Token)}
    (hdecls : Yields ((bounded digits depth).declarations enclosing) stream decls next)
    (hlexed : course.Lexed) (hscan : scan course = .ok stream) :
    ((bounded digits depth).declarations enclosing).runOn (course.followedBy rest) =
      (decls ++ ·) <$> ((bounded digits depth).declarations enclosing).runOn rest := by
  -- on the declarations; what is in store at each of them is what was scanned to show its start
  refine hdecls.many_induction
    (motive := fun stream decls _ => ∀ course : Upcoming, course.Lexed → scan course = .ok stream →
      ((bounded digits depth).declarations enclosing).runOn (course.followedBy rest) =
        (decls ++ ·) <$> ((bounded digits depth).declarations enclosing).runOn rest)
    ?_ ?_ ?_ course hlexed hscan
  · intro stream decl next hstep
    obtain ⟨front, middle, token, hfront, hhands, _⟩ := topLevelStep_closing hstep
    exact (hfront.append (.single hhands)).remaining_lt (by simp)
  · intro stream next hstep course hlexed hscan
    have hcases := yields_topLevelStep.mp hstep
    split at hcases
    next hend =>
      rw [followedBy_of_scan_end hlexed hscan hend]
      cases runOn _ rest <;> rfl
    next => simp at hcases
  · intro stream decl middle decls next hstep ih course hlexed hscan
    obtain ⟨front, last, token, hfront, hhands, hcloses⟩ := topLevelStep_closing hstep
    have hopen : stream.atEnd = false := by
      cases hfront with
      | nil => exact hhands.1
      | cons hfirst => exact hfirst.1
    obtain ⟨stream', hscan', hstream⟩ := @prolongs_of_scan course rest stream hscan hopen
    obtain ⟨last', hfront', hlast⟩ := hstream.passes hfront hhands.1
    -- the closing brace is taken on both sides, and only what it shows next may differ
    have hstep' := hcloses _ _ hfront' (hlast.buffered.trans hhands.buffered_eq)
    have hrest := ih last.upcoming (hfront.lexed (lexed_of_scan hlexed hscan)) hhands.scan_upcoming
    calc
      ((bounded digits depth).declarations enclosing).runOn (course.followedBy rest) =
          (decl :: ·) <$> ((bounded digits depth).declarations enclosing).runOn
            (last.upcoming.followedBy rest) := by
        rw [← hlast.upcoming]
        exact runOn_many_of_closing hscan' hfront' (hlast.atEnd_eq.trans hhands.1) hstep'
      _ = (decl :: decls ++ ·) <$> ((bounded digits depth).declarations enclosing).runOn rest := by
        rw [hrest]
        cases runOn _ rest <;> rfl

/-- A program is made of its declarations, whatever token it begins at. -/
theorem runOn_module {level : Level} (course : Upcoming) :
    ∃ tag, (level.module enclosing).runOn course =
      (fun decls => ⟨tag, decls.filterMap (·.classDecl?), decls.filterMap (·.interfaceDecl?)⟩) <$>
        (level.declarations enclosing).runOn course := by
  cases hscan : scan course with
  | error error =>
      refine ⟨.endOfText 0, ?_⟩
      simp only [runOn, hscan]
      rfl
  | ok stream =>
      refine ⟨stream.buffered, ?_⟩
      have hpeek : Yields peek stream stream.buffered stream := yields_peek.mpr ⟨rfl, rfl⟩
      simp only [runOn, hscan]
      rw [module, bind_of_yields hpeek, bind_pure_comp, map_apply, declarations]
      cases many _ stream <;> rfl

end Level

/-! ## Places in the second text -/

/-- The token, that much further on. -/
def Token.shift (distance : Nat) (token : Token) : Token :=
  { token with pos := token.pos + distance, stop := token.stop + distance }

theorem LexicalError.about_shift (cause : LexicalCause) (start stop distance : Nat) :
    about cause (start + distance) (stop + distance) =
      { about cause start stop with token := (about cause start stop).token.shift distance } := by
  simp [about, Token.shift]

/-- The failure, about what stands that much further on. -/
def Failure.shift (distance : Nat) : Failure → Failure
  | .lexical error => .lexical { error with token := error.token.shift distance }
  | .grammatical error => .grammatical { error with token := error.token.shift distance }
  | .integerTooLong digits => .integerTooLong digits
  | .noPrecedence kind => .noPrecedence kind

namespace Correspondence

/-- A text beside the same text further on. -/
def shifted (distance : Nat) : Correspondence where
  token first second := second = first.shift distance
  lexical first second := second = { first with token := first.token.shift distance }
  kind_eq htoken := by rw [htoken, Token.shift]
  data_eq htoken := by rw [htoken, Token.shift]

theorem courses_shifted (distance offset : Nat) (text : List Char) :
    (shifted distance).Courses (.ofText offset text) (.ofText (offset + distance) text) := by
  have hfurther (place length : Nat) : place + distance + length = place + length + distance := by
    omega
  fun_induction Upcoming.ofText offset text with
  | case1 offset text skipped lexeme rest hread start stop ih =>
      rw [Upcoming.ofText_of_lexeme hread, hfurther, hfurther]
      exact .token (by simp [shifted, Token.shift, start, stop]) ih
  | case2 offset text skipped hread =>
      rw [Upcoming.ofText_eq, hread, Upcoming.ofScan, hfurther]
      exact .endOfText (by simp [shifted, Token.shift, Token.endOfText])
  | case3 offset text skipped comment hread start stop =>
      rw [Upcoming.ofText_eq _ text, hread, Upcoming.ofScan, hfurther]
      simp only [hfurther]
      exact .failure (LexicalError.about_shift ..) rfl
  | case4 offset text skipped literal hread start stop =>
      rw [Upcoming.ofText_eq _ text, hread, Upcoming.ofScan, hfurther]
      simp only [hfurther]
      exact .failure (LexicalError.about_shift ..) rfl
  | case5 offset text skipped literal rest hread stop ih =>
      rw [Upcoming.ofText_eq _ text, hread, Upcoming.ofScan, hfurther]
      simp only [hfurther]
      exact .failure (LexicalError.about_shift ..) ih.length_eq
  | case6 offset text skipped rest hread start =>
      rw [Upcoming.ofText_eq _ text, hread, Upcoming.ofScan, hfurther]
      simp only [hfurther]
      exact .stuck (LexicalError.about_shift ..)

theorem Failures.eq_shift {distance : Nat} {failure failure' : Failure}
    (hfailures : (shifted distance).Failures failure failure') :
    failure' = failure.shift distance := by
  cases hfailures with
  | lexical herror => rw [Failure.shift, herror]
  | grammatical htoken => rw [Failure.shift, htoken]
  | integerTooLong => rfl

end Correspondence

/-! ## One text after another -/

/-- The declarations of one program and then those of another. -/
def Program.followedBy {ι : Type} (first second : Program ι) : Program ι :=
  ⟨first.tag, first.classes ++ second.classes, first.interfaces ++ second.interfaces⟩

namespace Program

open ClassLang.Parser

/-- A program that is read is made of declarations, with which reading ends. -/
theorem read_eq_ok {source : Source} {program : Program Token}
    (hread : Program.read source = .ok program) :
    ∃ start decls last, scan source.course = .ok start ∧
      Yields ((Level.ofDepth (nestingLimit - 1)).declarations none) start decls last ∧
      program = ⟨start.buffered, decls.filterMap (·.classDecl?),
        decls.filterMap (·.interfaceDecl?)⟩ := by
  obtain ⟨start, last, hstart, hyields⟩ := run_eq_ok_iff.mp hread
  obtain ⟨decls, hdecls, heq⟩ := Level.yields_module.mp hyields
  exact ⟨start, decls, last, ofSource_eq_ok_iff.mp hstart, hdecls, heq⟩

/-- What is read is made of the declarations that are read. -/
theorem read_eq_map (source : Source) :
    ∃ tag, Program.read source =
      (fun decls => ⟨tag, decls.filterMap (·.classDecl?), decls.filterMap (·.interfaceDecl?)⟩) <$>
        ((Level.ofDepth (nestingLimit - 1)).declarations none).runOn source.course := by
  obtain ⟨tag, hmodule⟩ :=
    @Level.runOn_module none (Level.ofDepth (nestingLimit - 1)) source.course
  refine ⟨tag, ?_⟩
  rw [← hmodule, Program.read, Program.readWithin, run_eq_runOn]
  rfl

/-- Behind the text of a program and a line feed, another text is read as it is read alone. -/
theorem read_append_newline {uri uri' uri'' : String} {front back : List Char}
    {first : Program Token} (hfirst : Program.read ⟨uri, front⟩ = .ok first) :
    (∀ second, Program.read ⟨uri', back⟩ = .ok second →
      ∃ whole, Program.read ⟨uri'', front ++ '\n' :: back⟩ = .ok whole ∧
        (first.followedBy second).same whole) ∧
    ∀ failure, Program.read ⟨uri', back⟩ = .error failure →
      Program.read ⟨uri'', front ++ '\n' :: back⟩ =
        .error (failure.shift (front.length + 1)) := by
  obtain ⟨tokens, htokens⟩ := tokens_of_read hfirst
  have hcourse : (⟨uri'', front ++ '\n' :: back⟩ : Source).course =
      (Upcoming.ofText 0 front).followedBy (.ofText (0 + (front.length + 1)) back) :=
    Upcoming.ofText_append_newline (tokens_eq_ok_iff_found.mp htokens).1
  obtain ⟨start, decls, last, hscan, hdecls, rfl⟩ := read_eq_ok hfirst
  obtain ⟨tag, hwhole⟩ := read_eq_map ⟨uri'', front ++ '\n' :: back⟩
  obtain ⟨tag', hsecond⟩ := read_eq_map ⟨uri', back⟩
  have hreadings := ((Correspondence.levels_ofDepth (nestingLimit - 1)).declarations none).runOn
    (Correspondence.courses_shifted (front.length + 1) 0 back)
  have hfollowed : ((Level.ofDepth (nestingLimit - 1)).declarations none).runOn
        ((Upcoming.ofText 0 front).followedBy (.ofText (0 + (front.length + 1)) back)) =
      (decls ++ ·) <$> ((Level.ofDepth (nestingLimit - 1)).declarations none).runOn
        (.ofText (0 + (front.length + 1)) back) :=
    Level.runOn_declarations_followedBy hdecls (Upcoming.lexed_ofText 0 front) hscan
  rw [hwhole, hsecond, hcourse, hfollowed]
  unfold Level.declarations Source.course
  -- the second text alone and behind the first one are read side by side
  generalize runOn _ (.ofText 0 back) = later at hreadings ⊢
  generalize runOn _ (.ofText (0 + (front.length + 1)) back) = later' at hreadings ⊢
  cases hreadings with
  | @ok later later' hlater =>
      refine ⟨fun second hread => ⟨_, rfl, ?_⟩, fun failure hread => by cases hread⟩
      obtain rfl := Except.ok.inj hread
      have halike : List.Forall₂ TopLevel.Alike (decls ++ later) (decls ++ later') :=
        List.rel_append (List.forall₂_same.mpr fun decl _ => .refl decl) hlater
      simpa [Program.followedBy] using Program.same_of_declarations halike
  | error hfailures =>
      refine ⟨fun second hread => (by cases hread), fun failure hread => ?_⟩
      obtain rfl := Except.error.inj hread
      rw [hfailures.eq_shift]
      rfl

/-- The line feed ends a comment, behind which an interface is read, or a string is not closed. -/
theorem read_append_newline_commented :
    let front := "class Ab \x7b int a; \x7d // b".toList
    let back := "interface Cd \x7b \x7d".toList
    let broken := "class Ef \x7b 'x".toList
    ∃ first second whole failure, Program.read ⟨"front", front⟩ = .ok first ∧
      Program.read ⟨"back", back⟩ = .ok second ∧
      Program.read ⟨"whole", front ++ '\n' :: back⟩ = .ok whole ∧
      (first.followedBy second).same whole ∧
      Program.read ⟨"broken", broken⟩ = .error failure ∧
      Program.read ⟨"whole", front ++ '\n' :: broken⟩ =
        .error (failure.shift (front.length + 1)) := by
  intro front back broken
  have hfront : (Program.read ⟨"front", front⟩).isOk = true := by decide +kernel
  have hback : (Program.read ⟨"back", back⟩).isOk = true := by decide +kernel
  have hbroken : (Program.read ⟨"broken", broken⟩).isOk = false := by decide +kernel
  cases hfirst : Program.read ⟨"front", front⟩ with
  | error => simp [hfirst, Except.isOk, Except.toBool] at hfront
  | ok first =>
      cases hsecond : Program.read ⟨"back", back⟩ with
      | error => simp [hsecond, Except.isOk, Except.toBool] at hback
      | ok second =>
          cases hfailure : Program.read ⟨"broken", broken⟩ with
          | ok => simp [hfailure, Except.isOk, Except.toBool] at hbroken
          | error failure =>
              obtain ⟨whole, hwhole, hsame⟩ := (read_append_newline hfirst).1 second hsecond
              exact ⟨first, second, whole, failure, rfl, rfl, hwhole, hsame, rfl,
                (read_append_newline hfirst).2 failure hfailure⟩

end Program

end ClassLang
