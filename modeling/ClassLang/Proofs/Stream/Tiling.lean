import ClassLang.Proofs.Scan.Spelling
import ClassLang.Proofs.Stream.Passage
import Mathlib.Control.Monad.Basic

/-! # How tokens tile a text

The tokens of a text and the layout between them are the text: they stand side
by side in it, each token is spelled by the characters from where it begins to
where it stops, and nothing but layout is left out.
-/

namespace ClassLang

open Scan

/-- The characters of a text from one offset up to another. -/
def slice (text : List Char) (start stop : Nat) : List Char := (text.take stop).drop start

/-- From an offset on, a text is layout and the spellings of the tokens by turns, up to the end
of the text, which is the last token. -/
inductive Tiles (text : List Char) : Nat → List Token → Prop
  | last {offset} : offset ≤ text.length → IsLayout (text.drop offset) [] →
      Tiles text offset [.endOfText text.length]
  | cons {offset token stop tokens} : token.stop = Nat.cast stop → offset ≤ token.pos →
      token.pos < stop → stop ≤ text.length →
      IsLayout (slice text offset token.pos) (text.drop token.pos) →
      Spells (slice text token.pos stop) token.kind token.data →
      Tiles text stop tokens → Tiles text offset (token :: tokens)

/-- The stretches of text that tokens divide from an offset on: what stands before each token,
and the token. -/
def pieces (text : List Char) : Nat → List Token → List (List Char)
  | _, [] => []
  | offset, token :: tokens =>
      slice text offset token.pos :: slice text token.pos token.stop.toNat ::
        pieces text token.stop.toNat tokens

/-! ## Slices -/

theorem slice_append_drop {text : List Char} {start stop : Nat} (hle : start ≤ stop) :
    slice text start stop ++ text.drop stop = text.drop start := by
  unfold slice
  by_cases hstart : start ≤ text.length
  · have hlength : start ≤ (text.take stop).length := by
      rw [List.length_take]
      omega
    rw [← List.drop_append_of_le_length hlength, List.take_append_drop]
  · rw [List.drop_eq_nil_of_le (by simp; omega), List.drop_eq_nil_of_le (by omega),
      List.drop_eq_nil_of_le (by omega)]
    rfl

/-- A slice of a text in three pieces is the middle one. -/
theorem slice_middle (front middle back : List Char) :
    slice (front ++ (middle ++ back)) front.length (front.length + middle.length) = middle := by
  simp [slice, List.take_append]

namespace Tiles

variable {text : List Char} {offset : Nat} {tokens : List Token}

/-- What tiles a text loses no character and repeats none. -/
theorem flatten_pieces (htiles : Tiles text offset tokens) :
    (pieces text offset tokens).flatten = text.drop offset := by
  induction htiles with
  | last => simp [pieces, Token.endOfText, slice]
  | cons hstop hpos hlt hle _ _ _ ih =>
      simp only [pieces, List.flatten_cons, hstop, Int.toNat_natCast, ih]
      rw [slice_append_drop (Nat.le_of_lt hlt), slice_append_drop hpos]

/-- The end of the text is the last token and only there. -/
theorem ends (htiles : Tiles text offset tokens) :
    ∃ front, tokens = front ++ [.endOfText text.length] ∧
      ∀ token ∈ front, token.kind ≠ .endOfText := by
  induction htiles with
  | last => exact ⟨[], rfl, by simp⟩
  | @cons _ token _ _ _ _ _ _ _ hspells _ ih =>
      obtain ⟨front, rfl, hfront⟩ := ih
      refine ⟨token :: front, rfl, List.forall_mem_cons.mpr ⟨?_, hfront⟩⟩
      exact hspells.kind_ne.1

/-- A stretch of text that is no token is none of the tokens. -/
theorem kind_ne_error (htiles : Tiles text offset tokens) :
    ∀ token ∈ tokens, token.kind ≠ .error := by
  induction htiles with
  | last => simp [Token.endOfText]
  | cons _ _ _ _ _ hspells _ ih =>
      exact List.forall_mem_cons.mpr ⟨hspells.kind_ne.2, ih⟩

end Tiles

namespace TokenStream

variable {stream last : TokenStream} {front : List Token} {offset : Nat} {text : List Char}

/-- Scanning from an offset on shows the end of the text after layout, or a token after layout
and goes on behind it. -/
theorem scan_ofText (hscan : scan (.ofText offset text) = .ok stream) :
    (∃ skipped, Scan.read text = .endOfText skipped ∧
        stream.buffered = .endOfText (offset + skipped.length)) ∨
      ∃ skipped found rest, Scan.read text = .lexeme skipped found rest ∧
        stream.buffered = ⟨found.kind, found.data, offset + skipped.length,
          Nat.cast (offset + skipped.length + found.text.length)⟩ ∧
        stream.upcoming = .ofText (offset + skipped.length + found.text.length) rest := by
  unfold Upcoming.ofText at hscan
  split at hscan
  next skipped found rest hread =>
    obtain rfl := Except.ok.inj hscan
    exact .inr ⟨skipped, found, rest, hread, rfl, rfl⟩
  next skipped hread =>
    obtain rfl := Except.ok.inj hscan
    exact .inl ⟨skipped, hread, rfl⟩
  all_goals cases hscan

/-- The tokens from a place to the end of the text tile what stands from there on. -/
theorem tiles_of_passes {before : List Char}
    (hscan : scan (.ofText before.length text) = .ok stream) (hpasses : Passes stream front last)
    (hlast : last.atEnd) : Tiles (before ++ text) before.length (front ++ [last.buffered]) := by
  induction hpasses generalizing before text with
  | nil =>
      rcases scan_ofText hscan with ⟨skipped, hread, heq⟩ | ⟨skipped, found, _, hread, heq, _⟩
      · have hwhole := text_read text
        rw [hread, Scan.text] at hwhole
        subst hwhole
        rw [heq, List.nil_append, ← List.length_append]
        exact .last (by simp) (by simpa using isLayout_of_read_end hread)
      · have hspells := (pieces_of_read hread).2
        simp [atEnd, heq, hspells.kind_ne.1] at hlast
  | @cons _ middle _ _ _ hhands _ ih =>
      rcases scan_ofText hscan with
        ⟨skipped, hread, heq⟩ | ⟨skipped, found, rest, hread, heq, hnext⟩
      · have hopen := hhands.1
        simp [atEnd, heq, Token.endOfText] at hopen
      · have hwhole := text_read text
        have hprogress := progresses_read text
        rw [hread, Scan.text] at hwhole
        rw [hread] at hprogress
        subst hwhole
        obtain ⟨hlayout, hspells⟩ := pieces_of_read hread
        have hmiddle :
            scan (.ofText (before ++ skipped ++ found.text).length rest) = .ok middle := by
          rw [List.length_append, List.length_append, ← hnext]
          exact hhands.scan_upcoming
        have hskipped := slice_middle before skipped (found.text ++ rest)
        have hfound := slice_middle (before ++ skipped) found.text rest
        have htiles := ih hmiddle hlast
        simp only [List.append_assoc, List.length_append, ← Nat.add_assoc] at hfound htiles ⊢
        rw [List.cons_append, ← hhands.buffered_eq, heq]
        refine .cons rfl (by simp) ?_ (by simp; omega) ?_ ?_ htiles
        · have hpos := List.length_pos_iff.mpr hprogress
          simp [hpos]
        · rw [hskipped, ← List.append_assoc before, ← List.length_append, List.drop_left]
          exact hlayout
        · rw [hfound]
          exact hspells

/-- The tokens of a source tile its text: the end of the text is the last token and only there,
no stretch is left that is no token, and no character is lost or taken twice. -/
theorem tokens_tile {source : Source} {tokens : List Token}
    (htokens : TokenStream.tokens source = .ok tokens) :
    (∃ front, tokens = front ++ [.endOfText source.length] ∧
        ∀ token ∈ front, token.kind ≠ .endOfText) ∧
      (∀ token ∈ tokens, token.kind ≠ .error) ∧ Tiles source.text 0 tokens ∧
      (pieces source.text 0 tokens).flatten = source.text := by
  obtain ⟨start, last, front, hstart, hpasses, hlast, rfl⟩ := tokens_eq_ok_iff.mp htokens
  unfold ofSource at hstart
  split at hstart
  next stream hscan =>
    obtain rfl := Except.ok.inj hstart
    have htiles : Tiles ([] ++ source.text) ([] : List Char).length (front ++ [last.buffered]) :=
      tiles_of_passes hscan hpasses hlast
    exact ⟨htiles.ends, htiles.kind_ne_error, htiles, htiles.flatten_pieces⟩
  next => cases hstart

/-- Comments side by side, a raw literal that holds a quote, and a literal before a keyword. -/
theorem tokens_tile_literals_and_comments :
    let source := Source.ofString "demo" "/*a*//**/ r\"\"\"a\\\"b\"\"\"+.5 //x\n'\\''class"
    let tokens : List Token :=
      [⟨.string, some "a\\\"b", 10, 21⟩, ⟨.symbol .plus, none, 21, 22⟩,
        ⟨.float, some ".5", 22, 24⟩, ⟨.string, some "'", 29, 33⟩,
        ⟨.keyword .class, none, 33, 38⟩, .endOfText 38]
    TokenStream.tokens source = .ok tokens ∧ Tiles source.text 0 tokens ∧
      (pieces source.text 0 tokens).flatten = source.text := by
  intro source tokens
  have htokens : TokenStream.tokens source = .ok tokens := by decide +kernel
  exact ⟨htokens, (tokens_tile htokens).2.2⟩

end TokenStream

end ClassLang
