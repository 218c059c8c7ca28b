import ClassLang.Proofs.Stream.Course
import ClassLang.Stream.Session

/-! # One call of a token stream

A call may fail, and another one may follow. Still the scan only goes forward within the text, a
failure takes back nothing, and what is handed out is passed over.
-/

namespace ClassLang

/-! ## What is in store -/

namespace Upcoming

/-- The tokens ahead, the ones behind failures included, the end of the text not. -/
def tokens : Upcoming → List Token
  | endOfText _ => []
  | token first next => first :: next.tokens
  | failure _ _ next => next.tokens
  | stuck _ _ => []

/-- What scanning yields from a place on stands behind this place, in order, up to `limit`. A
failure is no exception. -/
inductive Ordered (limit : Nat) : Nat → Upcoming → Prop
  | endOfText {place offset} : place ≤ offset → offset ≤ limit →
      Ordered limit place (endOfText offset)
  | token {place first stop next} : first.kind ≠ .endOfText → place ≤ first.pos →
      first.pos < stop → first.stop = Nat.cast stop → Ordered limit stop next →
      Ordered limit place (token first next)
  | failure {place error offset next} : place ≤ offset → Ordered limit offset next →
      Ordered limit place (failure error offset next)
  | stuck {place error offset} : place ≤ offset → offset ≤ limit →
      Ordered limit place (stuck error offset)

variable {limit place : Nat} {course : Upcoming}

theorem Ordered.place_le (hordered : course.Ordered limit place) : place ≤ limit := by
  induction hordered with
  | endOfText hle hlimit | stuck hle hlimit => exact Nat.le_trans hle hlimit
  | token _ hle hlt _ _ ih => omega
  | failure hle _ ih => exact Nat.le_trans hle ih

/-- The tokens ahead stand in order. -/
theorem Ordered.pairwise (hordered : course.Ordered limit place) :
    course.tokens.Pairwise (·.pos < ·.pos) ∧ ∀ token ∈ course.tokens, place ≤ token.pos := by
  induction hordered with
  | endOfText | stuck => exact ⟨.nil, by simp [tokens]⟩
  | token _ hle hlt _ _ ih =>
      refine ⟨List.pairwise_cons.mpr ⟨fun token hmem => ?_, ih.1⟩,
        List.forall_mem_cons.mpr ⟨hle, fun token hmem => ?_⟩⟩
      · exact Nat.lt_of_lt_of_le hlt (ih.2 token hmem)
      · exact Nat.le_trans hle (Nat.le_trans (Nat.le_of_lt hlt) (ih.2 token hmem))
  | failure hle _ ih => exact ⟨ih.1, fun token hmem => Nat.le_trans hle (ih.2 token hmem)⟩

/-- Scanning a text goes forward to its end. -/
theorem ordered_ofText (offset : Nat) (text : List Char) :
    (ofText offset text).Ordered (offset + text.length) offset := by
  have hwhole {text : List Char} {scan : Scan} (hread : Scan.read text = scan) :
      scan.text.length = text.length := by
    rw [← hread, Scan.text_read]
  fun_induction ofText offset text with
  | case1 offset text skipped lexeme rest hread start stop ih =>
      have hlength := hwhole hread
      have hprogress := Scan.progresses_read text
      rw [hread] at hprogress
      simp only [Scan.text, List.length_append] at hlength
      have hpos : 0 < lexeme.text.length := List.length_pos_iff.mpr hprogress
      have hstop : stop + rest.length = offset + text.length := by omega
      rw [hstop] at ih
      exact .token (Scan.pieces_of_read hread).2.kind_ne.1 (Nat.le_add_right offset _)
        (Nat.lt_add_of_pos_right hpos) rfl ih
  | case2 offset text skipped hread =>
      have hlength := hwhole hread
      simp only [Scan.text] at hlength
      exact .endOfText (by omega) (by omega)
  | case3 _ _ _ _ hread | case4 _ _ _ _ hread =>
      have hlength := hwhole hread
      simp only [Scan.text, List.length_append] at hlength
      exact .failure (by omega) (.endOfText (Nat.le_refl _) (by omega))
  | case5 offset text skipped literal rest hread stop ih =>
      have hlength := hwhole hread
      simp only [Scan.text, List.length_append] at hlength
      have hstop : stop + rest.length = offset + text.length := by omega
      rw [hstop] at ih
      exact .failure (by omega) ih
  | case6 _ _ _ _ hread =>
      have hlength := hwhole hread
      simp only [Scan.text, List.length_append] at hlength
      exact .stuck (by omega) (by omega)

end Upcoming

namespace TokenStream

variable {stream next last : TokenStream} {course : Upcoming} {limit place : Nat}

/-- All tokens that can still be handed out, the end of the text not counted. -/
def ahead (stream : TokenStream) : List Token :=
  if stream.atEnd then [] else stream.buffered :: stream.upcoming.tokens

/-- The buffered token stands before the place where scanning goes on, and what comes stands
behind it, in order and within the text. -/
structure InOrder (limit : Nat) (stream : TokenStream) : Prop where
  stop_le : stream.buffered.stop ≤ stream.offset
  upcoming : stream.upcoming.Ordered limit stream.offset

/-- A scan that succeeds goes forward and leaves what comes next in order. -/
theorem inOrder_of_scan (hordered : course.Ordered limit place) (hscan : scan course = .ok next) :
    place ≤ next.offset ∧ next.InOrder limit ∧ next.ahead = course.tokens := by
  cases hordered with
  | @endOfText _ offset hle hlimit =>
      obtain rfl := Except.ok.inj hscan
      exact ⟨hle, ⟨Int.le_refl _, .endOfText (Nat.le_refl _) hlimit⟩, rfl⟩
  | @token _ first stop rest hkind hle hlt hstop hrest =>
      obtain rfl := Except.ok.inj hscan
      have hoffset : first.stop.toNat = stop := by rw [hstop, Int.toNat_natCast]
      have hopen : decide (first.kind = .endOfText) = false := decide_eq_false hkind
      refine ⟨?_, ⟨?_, ?_⟩, ?_⟩
      · change place ≤ first.stop.toNat
        omega
      · change first.stop ≤ first.stop.toNat
        omega
      · change rest.Ordered limit first.stop.toNat
        rwa [hoffset]
      · simp [ahead, atEnd, hopen, Upcoming.tokens]
  | failure => cases hscan
  | stuck => cases hscan

/-- A scan that fails goes forward, too, and no token is lost. -/
theorem inOrder_of_scan_error {error : LexicalError} {offset : Nat} {rest : Upcoming}
    (hordered : course.Ordered limit place) (hscan : scan course = .error (error, offset, rest)) :
    place ≤ offset ∧ rest.Ordered limit offset ∧ rest.tokens = course.tokens := by
  cases hordered with
  | endOfText => cases hscan
  | token => cases hscan
  | failure hle hrest =>
      cases hscan
      exact ⟨hle, hrest, rfl⟩
  | stuck hle hlimit =>
      cases hscan
      exact ⟨hle, .stuck (Nat.le_refl _) hlimit, rfl⟩

/-! ## One call -/

/-- The scan for the token after the buffered one fails. -/
def Fails (stream : TokenStream) (error : LexicalError) (next : TokenStream) : Prop :=
  stream.atEnd = false ∧ stream.advance = .error error next

/-- What a call comes to: tokens are passed over, and then it succeeds or the next scan fails. -/
inductive Leads (stream : TokenStream) :
    Call → Except LexicalError (List Token) → TokenStream → Prop
  | peek : Leads stream .peek (.ok [stream.buffered]) stream
  | atEnd : stream.atEnd → Leads stream .advance (.ok [stream.buffered]) stream
  | advance {next : TokenStream} : stream.Hands stream.buffered next →
      Leads stream .advance (.ok [stream.buffered]) next
  | tokenize {front : List Token} {last : TokenStream} : stream.Passes front last → last.atEnd →
      Leads stream .tokenize (.ok (front ++ [last.buffered])) last
  | failure {call : Call} {front : List Token} {reached next : TokenStream} {error : LexicalError} :
      stream.Passes front reached → (call ≠ .tokenize → front = []) → reached.Fails error next →
      Leads stream call (.error error) next

/-- Tokenizing fails where a scan on the way does. -/
theorem passes_of_tokenize_error {error : LexicalError}
    (htokenize : tokenize stream = .error error next) :
    ∃ front reached, stream.Passes front reached ∧ reached.Fails error next := by
  fun_induction tokenize stream with
  | case1 => cases htokenize
  | case2 stream hopen error' next' hadvance =>
      obtain ⟨rfl, rfl⟩ := EStateM.Result.error.inj htokenize
      exact ⟨[], stream, .nil _, by simpa using hopen, hadvance⟩
  | case3 stream hopen token middle hadvance error' next' hrest ih =>
      obtain ⟨rfl, rfl⟩ := EStateM.Result.error.inj htokenize
      obtain ⟨front, reached, hpasses, hfails⟩ := ih hrest
      exact ⟨token :: front, reached, .cons ⟨by simpa using hopen, hadvance⟩ hpasses, hfails⟩
  | case4 => cases htokenize

theorem leads_turn (stream : TokenStream) (call : Call) :
    stream.Leads call (stream.turn call).result (stream.turn call).after := by
  cases call with
  | peek => exact .peek
  | advance =>
      unfold turn
      dsimp only
      cases hopen : stream.atEnd with
      | true =>
          have hadvance : stream.advance = .ok stream.buffered stream := by simp [advance, hopen]
          rw [hadvance]
          exact .atEnd hopen
      | false =>
          cases hadvance : stream.advance with
          | ok token next =>
              have hhands : stream.Hands token next := ⟨hopen, hadvance⟩
              have hbuffered := hhands.buffered_eq
              subst hbuffered
              exact .advance hhands
          | error error next => exact .failure (.nil _) (fun _ => rfl) ⟨hopen, hadvance⟩
  | tokenize =>
      unfold turn
      dsimp only
      cases htokenize : tokenize stream with
      | ok tokens next =>
          obtain ⟨front, hpasses, hlast, rfl⟩ := tokenize_eq_ok_iff.mp htokenize
          exact .tokenize hpasses hlast
      | error error next =>
          obtain ⟨front, reached, hpasses, hfails⟩ := passes_of_tokenize_error htokenize
          exact .failure hpasses (absurd rfl) hfails

variable {call : Call} {result : Except LexicalError (List Token)} {front : List Token}
  {error : LexicalError}

theorem Hands.inOrder {token : Token} (hhands : stream.Hands token next)
    (horder : stream.InOrder limit) :
    stream.offset ≤ next.offset ∧ next.InOrder limit ∧ stream.ahead = token :: next.ahead := by
  obtain ⟨hle, hnext, hahead⟩ := inOrder_of_scan horder.upcoming hhands.scan_upcoming
  refine ⟨hle, hnext, ?_⟩
  rw [hahead, ahead, if_neg (by simp [hhands.1]), hhands.buffered_eq]

theorem Passes.inOrder (hpasses : stream.Passes front last) (horder : stream.InOrder limit) :
    stream.offset ≤ last.offset ∧ last.InOrder limit ∧ stream.ahead = front ++ last.ahead := by
  induction hpasses with
  | nil => exact ⟨Nat.le_refl _, horder, rfl⟩
  | cons hhands _ ih =>
      obtain ⟨hle, hmiddle, hahead⟩ := hhands.inOrder horder
      obtain ⟨hle', hlast, hahead'⟩ := ih hmiddle
      exact ⟨Nat.le_trans hle hle', hlast, by rw [hahead, hahead', List.cons_append]⟩

theorem Passes.kind_ne (hpasses : stream.Passes front last) :
    ∀ token ∈ front, token.kind ≠ .endOfText := by
  induction hpasses with
  | nil => simp
  | cons hhands _ ih => exact List.forall_mem_cons.mpr ⟨hhands.kind_ne, ih⟩

/-- A failure leaves the buffered token where it is. Only the scan has gone on. -/
theorem Fails.eq_of_scan (hfails : stream.Fails error next) :
    ∃ offset rest, scan stream.upcoming = .error (error, offset, rest) ∧
      next = ⟨stream.buffered, offset, rest⟩ := by
  obtain ⟨hopen, hadvance⟩ := hfails
  cases hscan : scan stream.upcoming with
  | ok other => simp [advance, hopen, hscan] at hadvance
  | error failure =>
      obtain ⟨error', offset, rest⟩ := failure
      have hresult : stream.advance = .error error' ⟨stream.buffered, offset, rest⟩ := by
        simp [advance, hopen, hscan]
      obtain ⟨rfl, rfl⟩ := EStateM.Result.error.inj (hadvance.symm.trans hresult)
      exact ⟨offset, rest, rfl, rfl⟩

theorem Fails.buffered_eq (hfails : stream.Fails error next) :
    next.buffered = stream.buffered := by
  obtain ⟨offset, rest, -, rfl⟩ := hfails.eq_of_scan
  rfl

theorem Fails.inOrder (hfails : stream.Fails error next) (horder : stream.InOrder limit) :
    stream.offset ≤ next.offset ∧ next.InOrder limit ∧ stream.ahead = next.ahead := by
  obtain ⟨offset, rest, hscan, rfl⟩ := hfails.eq_of_scan
  obtain ⟨hle, hrest, htokens⟩ := inOrder_of_scan_error horder.upcoming hscan
  have hstop := horder.stop_le
  refine ⟨hle, ⟨?_, hrest⟩, ?_⟩
  · change stream.buffered.stop ≤ offset
    omega
  · change _ = if stream.atEnd then [] else _
    rw [ahead, htokens]

/-- The tokens that are not the end of a text. -/
def beforeEnd (tokens : List Token) : List Token := tokens.filter (·.kind ≠ .endOfText)

theorem beforeEnd_append (front back : List Token) :
    beforeEnd (front ++ back) = beforeEnd front ++ beforeEnd back :=
  List.filter_append front back

theorem beforeEnd_buffered (hend : stream.atEnd) : beforeEnd [stream.buffered] = [] := by
  have hkind : stream.buffered.kind = .endOfText := of_decide_eq_true hend
  simp [beforeEnd, hkind]

/-- A call goes forward and hands out nothing but tokens that it passes over. -/
theorem Leads.inOrder (hleads : stream.Leads call result next) (horder : stream.InOrder limit) :
    stream.offset ≤ next.offset ∧ next.InOrder limit ∧
      ∃ passed, stream.ahead = passed ++ next.ahead ∧
        (beforeEnd (call.handed result)).Sublist passed := by
  cases hleads with
  | peek => exact ⟨Nat.le_refl _, horder, [], rfl, List.Sublist.refl _⟩
  | atEnd hend =>
      have hhanded : beforeEnd (Call.advance.handed (.ok [stream.buffered])) = [] :=
        beforeEnd_buffered hend
      exact ⟨Nat.le_refl _, horder, [], rfl, List.sublist_nil.mpr hhanded⟩
  | advance hhands =>
      obtain ⟨hle, hnext, hahead⟩ := hhands.inOrder horder
      exact ⟨hle, hnext, [_], hahead, List.filter_sublist⟩
  | @tokenize front last hpasses hlast =>
      obtain ⟨hle, hnext, hahead⟩ := hpasses.inOrder horder
      refine ⟨hle, hnext, front, hahead, ?_⟩
      rw [Call.handed, beforeEnd_append, beforeEnd_buffered hlast, List.append_nil]
      · exact List.filter_sublist
      · exact Call.noConfusion
  | @failure _ front reached _ error hpasses _ hfails =>
      obtain ⟨hle, hreached, hahead⟩ := hpasses.inOrder horder
      obtain ⟨hle', hnext, hahead'⟩ := hfails.inOrder hreached
      have hnone : call.handed (.error error) = [] := by cases call <;> rfl
      refine ⟨Nat.le_trans hle hle', hnext, front, by rw [hahead, hahead'], ?_⟩
      rw [hnone]
      exact List.nil_sublist front

end TokenStream

end ClassLang
