import ClassLang.Proofs.Scan.Newline
import ClassLang.Proofs.Stream.Course

/-! # One text after another

A text that can be tokenized, a line feed and another text have in store what the one text has,
and then what the other has. Wherever the end of the first text is not reached, its tokens are
handed out as if nothing followed.
-/

namespace ClassLang

namespace Upcoming

/-- What one text has in store, and at its end what another has. -/
def followedBy : Upcoming → Upcoming → Upcoming
  | endOfText _, rest => rest
  | token first next, rest => token first (next.followedBy rest)
  | failure error offset next, _ => failure error offset next
  | stuck error offset, _ => stuck error offset

theorem ofScan_after (offset : Nat) (front : List Char) (scan : Scan) :
    ofScan offset (scan.after front) = ofScan (offset + front.length) scan := by
  cases scan <;> simp only [ofScan, Scan.after, List.length_append, Nat.add_assoc]

/-- A text without failures is followed by what stands behind a line feed. -/
theorem ofText_append_newline {offset : Nat} {text more : List Char}
    (hnone : (ofText offset text).firstError? = none) :
    ofText offset (text ++ '\n' :: more) =
      (ofText offset text).followedBy (ofText (offset + text.length + 1) more) := by
  fun_induction ofText offset text with
  | case1 offset text skipped lexeme rest hread start stop ih =>
      have hlength := congrArg List.length (Scan.text_read text)
      simp only [hread, Scan.text, List.length_append] at hlength
      have hstop : stop + rest.length = offset + text.length := by omega
      rw [ofText_of_lexeme (Scan.read_newline hread), followedBy, ← hstop, ← ih hnone]
  | case2 offset text skipped hread =>
      have hlength := congrArg List.length (Scan.text_read text)
      simp only [hread, Scan.text] at hlength
      rw [ofText_eq, Scan.read_newline_end hread, ofScan_after, ← ofText_eq, followedBy,
        ← hlength, List.length_append, List.length_singleton, Nat.add_assoc]
  | case3 => cases hnone
  | case4 => cases hnone
  | case5 => cases hnone
  | case6 => cases hnone

end Upcoming

namespace TokenStream

variable {course rest : Upcoming} {stream stream' last : TokenStream} {front : List Token}

/-- The same token is shown, and at the end of what is to come more follows. -/
structure Prolongs (rest : Upcoming) (stream stream' : TokenStream) : Prop where
  buffered : stream'.buffered = stream.buffered
  upcoming : stream'.upcoming = stream.upcoming.followedBy rest

theorem Prolongs.atEnd_eq (hprolongs : Prolongs rest stream stream') :
    stream'.atEnd = stream.atEnd := by
  rw [atEnd, atEnd, hprolongs.buffered]

theorem prolongs_of_scan (hscan : scan course = .ok stream) (hopen : stream.atEnd = false) :
    ∃ stream', scan (course.followedBy rest) = .ok stream' ∧ Prolongs rest stream stream' := by
  cases course with
  | endOfText =>
      obtain rfl := Except.ok.inj hscan
      cases hopen
  | token first next =>
      obtain rfl := Except.ok.inj hscan
      exact ⟨_, rfl, rfl, rfl⟩
  | failure => cases hscan
  | stuck => cases hscan

/-- The end of a text without failures is where what follows it begins. -/
theorem followedBy_of_scan_end (hlexed : course.Lexed) (hscan : scan course = .ok stream)
    (hend : stream.atEnd) : course.followedBy rest = rest := by
  cases hlexed with
  | endOfText => rfl
  | token hkind =>
      obtain rfl := Except.ok.inj hscan
      exact absurd (of_decide_eq_true hend) hkind
  | failure => cases hscan
  | stuck => cases hscan

/-- Tokens before the end are passed over in the same way. -/
theorem Prolongs.passes (hprolongs : Prolongs rest stream stream')
    (hpasses : stream.Passes front last) (hopen : last.atEnd = false) :
    ∃ last', stream'.Passes front last' ∧ Prolongs rest last last' := by
  induction hpasses generalizing stream' with
  | nil => exact ⟨stream', .nil _, hprolongs⟩
  | @cons stream middle last token tokens hhands hrest ih =>
      -- the end of the text is not passed over, so it is not shown before the last token either
      have hmiddle : middle.atEnd = false := by
        cases hrest with
        | nil => exact hopen
        | cons hnext => exact hnext.1
      obtain ⟨middle', hscan, hmiddle'⟩ := @prolongs_of_scan _ rest _ hhands.scan_upcoming hmiddle
      obtain ⟨last', hpasses', hlast⟩ := ih hmiddle' hopen
      have hkind : stream'.buffered.kind ≠ .endOfText := by
        rw [hprolongs.buffered, hhands.buffered_eq]
        exact hhands.kind_ne
      have hhands' := hands_of_scan hkind (hprolongs.upcoming ▸ hscan)
      rw [hprolongs.buffered, hhands.buffered_eq] at hhands'
      exact ⟨last', .cons hhands' hpasses', hlast⟩

end TokenStream

end ClassLang
