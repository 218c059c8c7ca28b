import ClassLang.Proofs.Reading.Concatenation
import ClassLang.Proofs.Reading.LayoutIndependence

/-! # The tokens of one text after another

A line feed ends whatever a token or a comment could go on with. So the tokens of a text, a line
feed and another text are those of the one, the end of the text excepted, and then those of the
other, that much further on. What fails in the other text fails there in the same way.
-/

namespace ClassLang

/-- The error, about what stands that much further on. -/
def LexicalError.shift (distance : Nat) (error : LexicalError) : LexicalError :=
  { error with token := error.token.shift distance }

namespace Upcoming

variable {course rest : Upcoming}

/-- What is found in a text without failures ends with the end of the text. -/
theorem found_ofText {offset : Nat} {text : List Char}
    (hnone : (ofText offset text).firstError? = none) :
    ∃ before, (ofText offset text).found = before ++ [.endOfText (offset + text.length)] := by
  fun_induction ofText offset text with
  | case1 offset text skipped lexeme rest hread start stop ih =>
      have hlength := congrArg List.length (Scan.text_read text)
      simp only [hread, Scan.text, List.length_append] at hlength
      have hstop : stop + rest.length = offset + text.length := by omega
      obtain ⟨before, hbefore⟩ := ih hnone
      exact ⟨_ :: before, by rw [found, hbefore, hstop, List.cons_append]⟩
  | case2 offset text skipped hread =>
      have hlength := congrArg List.length (Scan.text_read text)
      simp only [hread, Scan.text] at hlength
      exact ⟨[], by rw [found, hlength, List.nil_append]⟩
  | case3 => cases hnone
  | case4 => cases hnone
  | case5 => cases hnone
  | case6 => cases hnone

/-- Where nothing fails, the end of the text gives way to what follows it. -/
theorem found_followedBy (hnone : course.firstError? = none) :
    (course.followedBy rest).found = course.found.dropLast ++ rest.found := by
  induction course with
  | endOfText => rfl
  | token first next ih =>
      have hfound : next.found ≠ [] := found_ne_nil hnone
      rw [followedBy, found, found, ih hnone, List.dropLast_cons_of_ne_nil hfound,
        List.cons_append]
  | failure => cases hnone
  | stuck => cases hnone

/-- Where nothing fails, what fails first is what fails first in what follows. -/
theorem firstError?_followedBy (hnone : course.firstError? = none) :
    (course.followedBy rest).firstError? = rest.firstError? := by
  induction course with
  | endOfText => rfl
  | token first next ih => exact ih hnone
  | failure => cases hnone
  | stuck => cases hnone

end Upcoming

namespace Correspondence

variable {distance : Nat} {course course' : Upcoming}

/-- Further on the same tokens are found. -/
theorem Courses.found_eq_map (hcourses : (shifted distance).Courses course course') :
    course'.found = course.found.map (Token.shift distance) := by
  induction hcourses with
  | endOfText htoken => exact congrArg (fun token => [token]) htoken
  | token htoken _ ih => rw [Upcoming.found, Upcoming.found, ih, htoken, List.map_cons]
  | failure | stuck => rfl

/-- Further on the same thing is the first to fail. -/
theorem Courses.firstError?_eq_map (hcourses : (shifted distance).Courses course course') :
    course'.firstError? = course.firstError?.map (LexicalError.shift distance) := by
  induction hcourses with
  | endOfText => rfl
  | token _ _ ih => exact ih
  | failure herror | stuck herror => exact congrArg some herror

end Correspondence

namespace TokenStream

/-- **Behind a text that can be tokenized and a line feed, another text is tokenized as it is
alone.** -/
theorem tokens_append_newline {uri uri' uri'' : String} {front back : List Char}
    {first : List Token} (hfirst : tokens ⟨uri, front⟩ = .ok first) :
    ∃ before, first = before ++ [.endOfText front.length] ∧
      tokens ⟨uri'', front ++ '\n' :: back⟩ = match tokens ⟨uri', back⟩ with
        | .ok second => .ok (before ++ second.map (Token.shift (front.length + 1)))
        | .error error => .error (error.shift (front.length + 1)) := by
  obtain ⟨hnone, rfl⟩ := tokens_eq_ok_iff_found.mp hfirst
  change (Upcoming.ofText 0 front).firstError? = none at hnone
  have hcourse : (⟨uri'', front ++ '\n' :: back⟩ : Source).course =
      (Upcoming.ofText 0 front).followedBy (.ofText (0 + (front.length + 1)) back) :=
    Upcoming.ofText_append_newline hnone
  have hcourses := Correspondence.courses_shifted (front.length + 1) 0 back
  obtain ⟨before, hbefore⟩ := Upcoming.found_ofText hnone
  rw [Nat.zero_add] at hbefore
  refine ⟨before, hbefore, ?_⟩
  rw [tokens_eq, tokens_eq, hcourse, Upcoming.found_followedBy hnone,
    Upcoming.firstError?_followedBy hnone, hcourses.found_eq_map, hcourses.firstError?_eq_map,
    hbefore, List.dropLast_concat]
  unfold Source.course
  cases (Upcoming.ofText 0 back).firstError? <;> rfl

/-- The line feed ends a comment and a number, and what looks like a longer token is two. -/
theorem tokens_append_newline_cut :
    let front := "a = 1 // '".toList
    let back := ".5 + \"b\"".toList
    let broken := "'' + 'x".toList
    tokens ⟨"front", front⟩ = .ok [⟨.name, some "a", 0, 1⟩, ⟨.symbol .assign, none, 2, 3⟩,
        ⟨.int, some "1", 4, 5⟩, .endOfText 10] ∧
      tokens ⟨"whole", front ++ '\n' :: back⟩ = .ok [⟨.name, some "a", 0, 1⟩,
        ⟨.symbol .assign, none, 2, 3⟩, ⟨.int, some "1", 4, 5⟩, ⟨.float, some ".5", 11, 13⟩,
        ⟨.symbol .plus, none, 14, 15⟩, ⟨.string, some "b", 16, 19⟩, .endOfText 19] ∧
      tokens ⟨"whole", front ++ '\n' :: broken⟩ =
        .error (.about .unterminatedString 16 18) := by
  intro front back broken
  have hfront : tokens ⟨"front", front⟩ = .ok [⟨.name, some "a", 0, 1⟩,
      ⟨.symbol .assign, none, 2, 3⟩, ⟨.int, some "1", 4, 5⟩, .endOfText 10] := by decide +kernel
  have hback : tokens ⟨"back", back⟩ = .ok [⟨.float, some ".5", 0, 2⟩,
      ⟨.symbol .plus, none, 3, 4⟩, ⟨.string, some "b", 5, 8⟩, .endOfText 8] := by decide +kernel
  have hbroken : tokens ⟨"broken", broken⟩ = .error (.about .unterminatedString 5 7) := by
    decide +kernel
  refine ⟨hfront, ?_, ?_⟩
  · obtain ⟨before, hbefore, hwhole⟩ := @tokens_append_newline _ "back" "whole" _ back _ hfront
    obtain rfl := (congrArg List.dropLast hbefore).trans List.dropLast_concat
    rw [hwhole, hback]
    rfl
  · obtain ⟨before, -, hwhole⟩ := @tokens_append_newline _ "broken" "whole" _ broken _ hfront
    rw [hwhole, hbroken]
    rfl

end TokenStream

end ClassLang
