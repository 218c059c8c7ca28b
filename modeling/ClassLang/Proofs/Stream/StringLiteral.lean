import ClassLang.Proofs.Scan.StringLiteral
import ClassLang.Proofs.Stream.Course
import ClassLang.Report.Wording

/-! # String literals in texts

A text that writes a string as a literal has one token, which carries the string. A text that ends
in the middle of a literal fails for it, at the place where the literal begins; only if it ends
behind the backslash of an escape, it fails for the escape.
-/

namespace ClassLang

open Scan

/-- Looking for tokens from an offset on comes to the place where the rest of the text begins:
before it stand tokens, and layout. -/
inductive ComesTo (place : Nat) (rest : List Char) : (offset : Nat) → (text : List Char) → Prop
  | layout {offset text skipped} : Layout.split text = .clear skipped rest →
      place = offset + skipped.length → ComesTo place rest offset text
  | token {offset text skipped found more} : Scan.read text = .lexeme skipped found more →
      ComesTo place rest (offset + skipped.length + found.text.length) more →
      ComesTo place rest offset text

variable {opening : Opening} {quote : Char} {body data rest text : List Char} {place offset : Nat}
  {cut : Bool} {source : Source}

/-- The text ends where its rest does. -/
theorem ComesTo.end_eq (hcomes : ComesTo place rest offset text) :
    place + rest.length = offset + text.length := by
  induction hcomes with
  | @layout offset text skipped hsplit hplace =>
      have hlength := congrArg List.length (Layout.text_split text)
      simp only [hsplit, Layout.text, List.length_append] at hlength
      omega
  | @token offset text skipped found more hread _ ih =>
      have hlength := congrArg List.length (Scan.text_read text)
      simp only [hread, Scan.text, List.length_append] at hlength
      omega

/-- The first thing to fail is the literal that the end of the text leaves open. -/
theorem ComesTo.firstError? (hcomes : ComesTo place (opening.text ++ body) offset text)
    (hfind : Opening.find? (opening.text ++ body) = some opening)
    (hunclosed : Unclosed opening body cut) :
    (Upcoming.ofText offset text).firstError? =
      some (if cut then .about .unrecognizedEscape (offset + text.length) (offset + text.length + 1)
        else .about .unterminatedString place (offset + text.length)) := by
  have hend := hcomes.end_eq
  induction hcomes with
  | @layout offset text skipped hsplit hplace =>
      subst hplace
      rw [Upcoming.ofText_eq, Scan.read, hsplit]
      simp only [clear_unclosed skipped hfind hunclosed, ← hend]
      cases cut <;> rfl
  | token hread hrest ih =>
      rw [Upcoming.ofText_of_lexeme hread, Upcoming.firstError?, ih hrest.end_eq,
        ← hrest.end_eq, ← hend]

namespace TokenStream

/-- A literal that decodes to the data is the only token of its text. -/
theorem tokens_of_decodes (uri : String) (hcloses : opening.Closes quote)
    (hdecodes : Decodes opening body data) :
    let text := opening.text ++ (body ++ opening.delimiter)
    tokens ⟨uri, text⟩ =
      .ok [⟨.string, some (String.ofList data), 0, text.length⟩, .endOfText text.length] := by
  intro text
  have hrest : opening.delimiter = [quote] → body = [] → ([] : List Char).head? ≠ some quote := by
    simp
  have hfind : Opening.find? text = some opening := by
    simpa [text] using Opening.find?_literal hcloses hdecodes hrest
  have hread : Scan.read text = .lexeme [] ⟨.string, some (String.ofList data), text⟩ [] := by
    rw [Scan.read, Opening.split_of_find? hfind]
    simpa [text] using clear_literal [] hcloses hdecodes hrest
  rw [tokens_eq_ok_iff_found, Source.course, Upcoming.ofText_of_lexeme hread, Upcoming.ofText_nil]
  simp [Upcoming.firstError?, Upcoming.found]

/-- **A literal that writes a string is the only token of its text and carries the string.** It is
written character by character between one quote or three on each side, or it is raw; then the
quotes may not stand in the string, nor three of them begin with the last of it. -/
theorem tokens_string_literal (uri value : String) {width : Nat} (hquote : isQuote quote)
    (hwidth : width = 1 ∨ width = 3) :
    let quotes := List.replicate width quote
    let whole (text : List Char) : List Token :=
      [⟨.string, some value, 0, text.length⟩, .endOfText text.length]
    (∀ pieces, List.Forall₂ (WritesChar quote) value.toList pieces →
      let text := quotes ++ pieces.flatten ++ quotes
      tokens ⟨uri, text⟩ = .ok (whole text)) ∧
    (¬ quotes <:+: value.toList → (width = 3 → value.toList.getLast? ≠ some quote) →
      let text := 'r' :: quotes ++ value.toList ++ quotes
      tokens ⟨uri, text⟩ = .ok (whole text)) := by
  intro quotes whole
  have hcloses (raw : Bool) : (⟨raw, quotes⟩ : Opening).Closes quote := by
    refine ⟨hquote, ?_⟩
    rcases hwidth with rfl | rfl
    · exact .inl rfl
    · exact .inr rfl
  refine ⟨fun pieces hwrites => ?_, fun hapart hlast => ?_⟩
  · have htokens := tokens_of_decodes uri (hcloses false)
      (decodes_of_writes (hcloses false) rfl hwrites)
    simpa [whole, Opening.text] using htokens
  · have hthree : (⟨true, quotes⟩ : Opening).delimiter ≠ [quote] →
        value.toList.getLast? ≠ some quote := by
      intro hne
      refine hlast (hwidth.resolve_left ?_)
      rintro rfl
      exact hne rfl
    have htokens := tokens_of_decodes uri (hcloses true)
      (decodes_raw (hcloses true) rfl hapart hthree)
    simpa [whole, Opening.text] using htokens

/-- An apostrophe, a tab and a backslash between three apostrophes: with escapes and raw. -/
theorem tokens_string_literal_apostrophe :
    isQuote '\x27' ∧ (3 = 1 ∨ 3 = 3) ∧
      tokens (.ofString "main" "\x27\x27\x27it\\\x27s\\t\\\\\x27\x27\x27") =
        .ok [⟨.string, some "it\x27s\t\\", 0, 15⟩, .endOfText 15] ∧
      tokens (.ofString "main" "r\x27\x27\x27it\x27s\t\\\x27\x27\x27") =
        .ok [⟨.string, some "it\x27s\t\\", 0, 13⟩, .endOfText 13] := by
  obtain ⟨hwritten, hraw⟩ := @tokens_string_literal '\x27' "main" "it\x27s\t\\" 3 rfl (.inr rfl)
  have hpieces : List.Forall₂ (WritesChar '\x27') ['i', 't', '\x27', 's', '\t', '\\']
      [['i'], ['t'], ['\\', '\x27'], ['s'], ['\\', 't'], ['\\', '\\']] :=
    .cons (.plain (by decide) (by decide)) (.cons (.plain (by decide) (by decide))
      (.cons (.escaped (.inr rfl)) (.cons (.plain (by decide) (by decide))
        (.cons .tab (.cons (.escaped (.inl rfl)) .nil)))))
  exact ⟨rfl, .inr rfl, hwritten _ hpieces, hraw (by decide) (by decide)⟩

/-- **A text that comes to a literal and ends in the middle of it fails for the literal: it is
unterminated, from where it begins to the end of the text.** Only if the text ends behind the
backslash of an escape, the failure is about the escape, behind the end of the text. -/
theorem tokens_unclosed_literal (hcomes : ComesTo place (opening.text ++ body) 0 source.text)
    (hfind : Opening.find? (opening.text ++ body) = some opening)
    (hunclosed : Unclosed opening body cut) :
    ∃ error, tokens source = .error error ∧
      (cut = false → error.cause.wording.code = "KAV1004" ∧
        error.token = ⟨.error, none, place, source.text.length⟩) ∧
      (cut = true → error.cause.wording.code = "KAV1002" ∧
        error.token = ⟨.error, none, source.text.length, source.text.length + 1⟩) := by
  have hfails := hcomes.firstError? hfind hunclosed
  rw [Nat.zero_add] at hfails
  refine ⟨_, tokens_eq_error_iff.mpr hfails, ?_, ?_⟩
  · rintro rfl
    exact ⟨rfl, rfl⟩
  · rintro rfl
    exact ⟨rfl, rfl⟩

/-- Behind a name and a parenthesis stands a literal with an escape, and one of its three closing
quotes is missing. -/
theorem tokens_unclosed_literal_triple :
    let source := Source.ofString "main" "f( \x22\x22\x22\\n\x22\x22"
    let opening : Opening := ⟨false, ['\x22', '\x22', '\x22']⟩
    let body := ['\\', 'n', '\x22', '\x22']
    ComesTo 3 (opening.text ++ body) 0 source.text ∧
      Opening.find? (opening.text ++ body) = some opening ∧ Unclosed opening body false ∧
      ∃ error, tokens source = .error error ∧ error.cause.wording.code = "KAV1004" ∧
        error.token = ⟨.error, none, 3, 10⟩ := by
  intro source opening body
  have hname : Scan.read source.text =
      .lexeme [] ⟨.name, some "f", ['f']⟩ ('(' :: ' ' :: (opening.text ++ body)) := by
    decide +kernel
  have hsymbol : Scan.read ('(' :: ' ' :: (opening.text ++ body)) =
      .lexeme [] ⟨.symbol .parenOpen, none, ['(']⟩ (' ' :: (opening.text ++ body)) := by
    decide +kernel
  have hlayout : Layout.split (' ' :: (opening.text ++ body)) =
      .clear [' '] (opening.text ++ body) := by decide +kernel
  have hcomes : ComesTo 3 (opening.text ++ body) 0 source.text :=
    .token hname (.token hsymbol (.layout hlayout rfl))
  have hunclosed : Unclosed opening body false :=
    .escape rfl rfl (.plain (by decide) nofun (.plain (by decide) nofun .nil))
  obtain ⟨error, herror, hopen, -⟩ := tokens_unclosed_literal hcomes rfl hunclosed
  exact ⟨hcomes, rfl, hunclosed, error, herror, hopen rfl⟩

/-- A text of a quote and a backslash ends in the middle of a literal in which no backslash has a
character behind it, and is not said to be unterminated. -/
theorem tokens_unclosed_literal_cut :
    let source := Source.ofString "main" "\x22\\"
    let opening : Opening := ⟨false, ['\x22']⟩
    ComesTo 0 (opening.text ++ ['\\']) 0 source.text ∧
      Opening.find? (opening.text ++ ['\\']) = some opening ∧ Unclosed opening ['\\'] true ∧
      ∃ error, tokens source = .error error ∧ error.cause.wording.code ≠ "KAV1004" ∧
        error.token ≠ ⟨.error, none, 0, 2⟩ := by
  intro source opening
  have hlayout : Layout.split source.text = .clear [] (opening.text ++ ['\\']) := by decide +kernel
  have htokens : tokens source = .error (.about .unrecognizedEscape 2 3) := by decide +kernel
  exact ⟨.layout hlayout rfl, rfl, .cut rfl, _, htokens, by decide, by decide⟩

end TokenStream

end ClassLang
