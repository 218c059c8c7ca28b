import ClassLang.Scan.Layout
import ClassLang.Scan.Lexeme

/-! # One step of scanning

A scan skips the layout at the front of a text and takes the lexeme after it.
Each outcome names the pieces it cut the text into, and together they are the
whole text.
-/

namespace ClassLang

/-- What the front of a text turns out to be, after some skipped layout. -/
inductive Scan where
  | lexeme (skipped : List Char) (lexeme : Scan.Lexeme) (rest : List Char)
  /-- Nothing but layout is left. -/
  | endOfText (skipped : List Char)
  /-- A comment takes up the rest of the text. -/
  | openComment (skipped comment : List Char)
  /-- A string literal takes up the rest of the text. -/
  | openString (skipped literal : List Char)
  /-- The literal up to a backslash that what begins the rest cannot follow. -/
  | badEscape (skipped literal rest : List Char)
  /-- The rest begins with a character that begins no token. -/
  | noToken (skipped rest : List Char)
deriving DecidableEq, Repr

namespace Scan

/-- The scan of a text that begins with no layout. -/
def clear (skipped text : List Char) : Scan :=
  match text with
  | [] => endOfText skipped
  | _ :: _ =>
      match Opening.find? text with
      | some opening =>
          match Body.read opening (text.drop opening.text.length) with
          | .closed data spelling rest =>
              lexeme skipped ⟨.string, some (String.ofList data), opening.text ++ spelling⟩ rest
          | .unclosed => openString skipped text
          | .badEscape spelling rest => badEscape skipped (opening.text ++ spelling) rest
      | none =>
          match Lexeme.plain? text with
          | some (found, rest) => lexeme skipped found rest
          | none => noToken skipped text

/-- Scan the front of a text. -/
def read (text : List Char) : Scan :=
  match Layout.split text with
  | .clear skipped rest => clear skipped rest
  | .openComment skipped comment => openComment skipped comment

/-- The text that was scanned. -/
def text : Scan → List Char
  | lexeme skipped found rest => skipped ++ found.text ++ rest
  | endOfText skipped => skipped
  | openComment skipped comment => skipped ++ comment
  | openString skipped literal => skipped ++ literal
  | badEscape skipped literal rest => skipped ++ literal ++ rest
  | noToken skipped rest => skipped ++ rest

/-- What a scan took before its rest is not empty, where the scanning goes on from a rest. -/
def Progresses : Scan → Prop
  | lexeme _ found _ => found.text ≠ []
  | badEscape _ literal _ => literal ≠ []
  | _ => True

theorem clear_correct (skipped rest : List Char) :
    (clear skipped rest).text = skipped ++ rest ∧ (clear skipped rest).Progresses := by
  unfold clear
  split
  next => simp [text, Progresses]
  next c more =>
    split
    next opening hopening =>
      obtain ⟨hquotes, tail, htail⟩ := Opening.text_prefix_of_find? hopening
      have hopened : opening.text ≠ [] := by simp [Opening.text, hquotes]
      have hcovers := Body.covers_read opening ((c :: more).drop opening.text.length)
      rw [← htail, List.drop_left] at hcovers ⊢
      cases hbody : Body.read opening tail with
      | closed data spelling left =>
          rw [hbody] at hcovers
          simp_all [text, Progresses, Body.Covers]
      | unclosed => simp [text, Progresses]
      | badEscape spelling left =>
          rw [hbody] at hcovers
          simp_all [text, Progresses, Body.Covers]
    next hopening =>
      split
      next found left hfound =>
        have hsplits := Lexeme.splits_plain? hfound
        exact ⟨by simpa [text] using hsplits.2, hsplits.1⟩
      next => simp [text, Progresses]

/-- Scanning loses nothing. -/
@[simp] theorem text_read (cs : List Char) : (read cs).text = cs := by
  have hlayout := Layout.text_split cs
  unfold read
  split
  next skipped rest hsplit =>
    rw [(clear_correct skipped rest).1]
    simpa [hsplit, Layout.text] using hlayout
  next skipped comment hsplit => simpa [hsplit, Layout.text, text] using hlayout

/-- Scanning always takes something before it goes on. -/
theorem progresses_read (cs : List Char) : (read cs).Progresses := by
  unfold read
  split
  next skipped rest _ => exact (clear_correct skipped rest).2
  next => trivial

end Scan

end ClassLang
