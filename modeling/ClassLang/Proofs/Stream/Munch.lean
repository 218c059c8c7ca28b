import ClassLang.Proofs.Scan.Munch
import ClassLang.Proofs.Stream.Course

/-! # Tokens and the scans they come from

Each token of a text but the last comes of a scan of what stands from some place on. So the tokens
stand in the order of their places, they reach as far as they can, and those that carry a name or
the name of a type are spelled as such.
-/

namespace ClassLang

open Scan

/-- What a name or the name of a type carries is spelled as such. -/
structure Token.CarriesNames (token : Token) : Prop where
  name : token.kind = .name → IsName token.payload
  typename : token.kind = .typename → IsTypename token.payload

namespace Scan

variable {text skipped rest : List Char} {found : Lexeme} {kind : Kind} {data : Option String}

theorem isKeyword_eq_false {word : List Char} (hword : ¬ IsKeywordSpelling word) :
    isKeyword (String.ofList word) = false := by
  rw [isKeyword, Option.isSome_eq_false_iff, Option.isNone_iff_eq_none]
  refine List.find?_eq_none.mpr fun keyword _ hspelling => hword ⟨keyword, ?_⟩
  rw [of_decide_eq_true hspelling, String.toList_ofList]

/-- The payload of a word with a name of its own is the word. -/
theorem Spells.payload_eq {pos : Nat} {stop : Int} (hspells : Spells text kind data)
    (hkind : kind = .name ∨ kind = .typename) :
    (⟨kind, data, pos, stop⟩ : Token).payload = String.ofList text := by
  cases hspells with
  | keyword => simp at hkind
  | symbol => simp at hkind
  | plain => rfl
  | string => simp at hkind

/-- What a name or the name of a type is spelled as. -/
theorem Munched.isName {spelling rest : List Char} (hmunched : Munched spelling rest .name) :
    IsName (String.ofList spelling) := by
  cases hmunched with
  | word hword _ hkind =>
      cases hkind with
      | name hkeyword htype =>
          have hspelling := (isTypename_iff (List.all_eq_true.mp hword.1)).not.mpr htype
          exact ⟨by simpa using hword, isKeyword_eq_false hkeyword, by simpa using hspelling⟩

theorem Munched.isTypename {spelling rest : List Char}
    (hmunched : Munched spelling rest .typename) : IsTypename (String.ofList spelling) := by
  cases hmunched with
  | word hword _ hkind =>
      cases hkind with
      | typename hkeyword htype =>
          have hspelling := (isTypename_iff (List.all_eq_true.mp hword.1)).mpr htype
          exact ⟨by simpa using hword, isKeyword_eq_false hkeyword, hspelling⟩

theorem carriesNames_of_read {pos : Nat} {stop : Int}
    (hread : read text = .lexeme skipped found rest) :
    (⟨found.kind, found.data, pos, stop⟩ : Token).CarriesNames := by
  have hspells := (pieces_of_read hread).2
  have hmunched := munched_of_read hread
  constructor
  · intro hname
    rw [hspells.payload_eq (.inl hname)]
    change found.kind = .name at hname
    rw [hname] at hmunched
    exact hmunched.isName
  · intro htypename
    rw [hspells.payload_eq (.inr htypename)]
    change found.kind = .typename at htypename
    rw [htypename] at hmunched
    exact hmunched.isTypename

end Scan

namespace Upcoming

/-- The token comes of a scan that begins at some place of the text. -/
inductive ComesOfScan (offset : Nat) (text : List Char) : Token → Prop
  | mk {before after skipped rest : List Char} {lexeme : Lexeme} : text = before ++ after →
      Scan.read after = .lexeme skipped lexeme rest →
      ComesOfScan offset text ⟨lexeme.kind, lexeme.data, offset + before.length + skipped.length,
        Nat.cast (offset + before.length + skipped.length + lexeme.text.length)⟩

theorem ComesOfScan.of_rest {offset : Nat} {front text : List Char} {token : Token}
    (hscan : ComesOfScan (offset + front.length) text token) :
    ComesOfScan offset (front ++ text) token := by
  cases hscan with
  | @mk before after _ _ _ htext hread =>
      have hwhole : front ++ text = (front ++ before) ++ after := by
        rw [htext, List.append_assoc]
      have hscan : ComesOfScan offset (front ++ text) _ := .mk hwhole hread
      simpa only [List.length_append, Nat.add_assoc] using hscan

/-- What is found in a text comes of scans, the end of the text apart. -/
theorem comesOfScan_of_mem_found {offset : Nat} {text : List Char} {token : Token}
    (hmem : token ∈ (ofText offset text).found) :
    token = .endOfText (offset + text.length) ∨ ComesOfScan offset text token := by
  fun_induction ofText offset text with
  | case1 offset text skipped lexeme rest hread start stop ih =>
      have hwhole := Scan.text_read text
      rw [hread, Scan.text] at hwhole
      rcases List.mem_cons.mp hmem with rfl | hmem
      · exact .inr (@ComesOfScan.mk _ _ [] _ _ _ _ rfl hread)
      · have hstop : stop = offset + (skipped ++ lexeme.text).length := by
          rw [List.length_append, ← Nat.add_assoc]
        rw [hstop] at ih
        rw [← hwhole, List.length_append, ← Nat.add_assoc]
        exact (ih (hstop ▸ hmem)).imp_right ComesOfScan.of_rest
  | case2 offset text skipped hread =>
      have hwhole := Scan.text_read text
      rw [hread, Scan.text] at hwhole
      rw [← hwhole]
      exact .inl (List.mem_singleton.mp hmem)
  | case3 | case4 | case5 | case6 => cases hmem

/-- Nothing is found before the place from which the text is scanned. -/
theorem le_pos_of_mem_found {offset : Nat} {text : List Char} {token : Token}
    (hmem : token ∈ (ofText offset text).found) : offset ≤ token.pos := by
  rcases comesOfScan_of_mem_found hmem with rfl | hscan
  · exact Nat.le_add_right offset text.length
  · cases hscan with
    | mk => exact Nat.le_trans (Nat.le_add_right offset _) (Nat.le_add_right _ _)

/-- What is found in a text stands in order. -/
theorem pairwise_found (offset : Nat) (text : List Char) :
    (ofText offset text).found.Pairwise (·.pos < ·.pos) := by
  fun_induction ofText offset text with
  | case1 offset text skipped lexeme rest hread start stop ih =>
      have hprogress := Scan.progresses_read text
      rw [hread] at hprogress
      have hlength : 0 < lexeme.text.length := List.length_pos_iff.mpr hprogress
      refine List.pairwise_cons.mpr ⟨fun token hmem => ?_, ih⟩
      calc start
        _ < start + lexeme.text.length := Nat.lt_add_of_pos_right hlength
        _ ≤ token.pos := le_pos_of_mem_found hmem
  | case2 => exact List.pairwise_singleton _ _
  | case3 | case4 | case5 | case6 => exact .nil

end Upcoming

namespace TokenStream

variable {source : Source} {tokens : List Token} {token : Token}

/-- The tokens of a text stand in order. -/
theorem pairwise_of_tokens (htokens : TokenStream.tokens source = .ok tokens) :
    tokens.Pairwise (·.pos < ·.pos) := by
  obtain ⟨-, rfl⟩ := tokens_eq_ok_iff_found.mp htokens
  exact Upcoming.pairwise_found 0 source.text

/-- The tokens of a text carry names that are spelled as such. -/
theorem carriesNames_of_tokens (htokens : TokenStream.tokens source = .ok tokens)
    (hmem : token ∈ tokens) : token.CarriesNames := by
  obtain ⟨-, rfl⟩ := tokens_eq_ok_iff_found.mp htokens
  rcases Upcoming.comesOfScan_of_mem_found hmem with rfl | hscan
  · constructor <;> simp [Token.endOfText]
  · cases hscan with
    | mk _ hread => exact carriesNames_of_read hread

/-- Every token of a text reaches as far as a token of its sort can from where it begins, and its
kind is that of its spelling. -/
theorem munched_of_tokens (htokens : TokenStream.tokens source = .ok tokens) :
    ∀ token ∈ tokens, Munched (slice source.text token.pos token.stop.toNat)
      (source.text.drop token.stop.toNat) token.kind := by
  intro token hmem
  obtain ⟨-, rfl⟩ := tokens_eq_ok_iff_found.mp htokens
  rcases Upcoming.comesOfScan_of_mem_found hmem with rfl | hscan
  · simpa [Token.endOfText, slice] using Munched.endOfText
  · cases hscan with
    | @mk before after skipped rest lexeme htext hread =>
        have hwhole := Scan.text_read after
        rw [hread, Scan.text, List.append_assoc] at hwhole
        have hslice := slice_middle (before ++ skipped) lexeme.text rest
        have hdrop := @List.drop_left _ (before ++ skipped ++ lexeme.text) rest
        rw [List.length_append, List.length_append, List.append_assoc, List.append_assoc] at hdrop
        rw [List.length_append, List.append_assoc] at hslice
        simp only [htext, ← hwhole, Nat.zero_add, Int.toNat_natCast, hslice, hdrop]
        exact munched_of_read hread

/-- Points beside digits, a comment and increments side by side, and a literal before a type. -/
theorem munched_points_and_increments :
    let source := Source.ofString "main" "1..2.a/**/+++r'x'Abc_d<<=AB/5."
    let tokens : List Token :=
      [⟨.float, some "1.", 0, 2⟩, ⟨.float, some ".2", 2, 4⟩, ⟨.symbol .dot, none, 4, 5⟩,
        ⟨.name, some "a", 5, 6⟩, ⟨.symbol .increment, none, 10, 12⟩,
        ⟨.symbol .plus, none, 12, 13⟩, ⟨.string, some "x", 13, 17⟩,
        ⟨.typename, some "Abc_d", 17, 22⟩, ⟨.symbol .less, none, 22, 23⟩,
        ⟨.symbol .lessEqual, none, 23, 25⟩, ⟨.name, some "AB", 25, 27⟩,
        ⟨.symbol .slash, none, 27, 28⟩, ⟨.float, some "5.", 28, 30⟩, .endOfText 30]
    TokenStream.tokens source = .ok tokens ∧
      ∀ token ∈ tokens, Munched (slice source.text token.pos token.stop.toNat)
        (source.text.drop token.stop.toNat) token.kind := by
  intro source tokens
  have htokens : TokenStream.tokens source = .ok tokens := by decide +kernel
  exact ⟨htokens, munched_of_tokens htokens⟩

end TokenStream

end ClassLang
