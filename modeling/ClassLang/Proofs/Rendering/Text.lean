import ClassLang.Grammar.Failure
import ClassLang.Proofs.Rendering.Lexeme
import ClassLang.Proofs.Stream.Course

/-! # Texts of lexemes

Lexemes that are written with one space between them are the tokens of the
text, in their order.
-/

namespace ClassLang

open Scan

/-- The lexemes one after the other, with one space between. -/
def spaced (lexemes : List Lexeme) : List Char := [' '].intercalate (lexemes.map (·.text))

/-- The tokens have the kinds of the lexemes and carry their data. -/
def Shows (lexemes : List Lexeme) (tokens : List Token) : Prop :=
  tokens.map (fun token => (token.kind, token.data)) =
    lexemes.map fun lexeme => (lexeme.kind, lexeme.data)

variable {lexeme : Lexeme} {lexemes others : List Lexeme} {tokens : List Token}

theorem shows_nil_iff : Shows [] tokens ↔ tokens = [] := by simp [Shows]

theorem shows_cons_iff :
    Shows (lexeme :: lexemes) tokens ↔
      ∃ token rest, tokens = token :: rest ∧
        (token.kind = lexeme.kind ∧ token.data = lexeme.data) ∧ Shows lexemes rest := by
  simp [Shows, List.map_eq_cons_iff]

theorem shows_singleton_iff :
    Shows [lexeme] tokens ↔
      ∃ token, tokens = [token] ∧ token.kind = lexeme.kind ∧ token.data = lexeme.data := by
  simp [shows_cons_iff, shows_nil_iff]

theorem shows_append_iff :
    Shows (lexemes ++ others) tokens ↔
      ∃ front back, tokens = front ++ back ∧ Shows lexemes front ∧ Shows others back := by
  simp [Shows, List.map_eq_append_iff]

/-- Behind the first lexeme every one has a space before it. -/
theorem spaced_cons :
    spaced (lexeme :: lexemes) = lexeme.text ++ lexemes.flatMap (' ' :: ·.text) := by
  induction lexemes generalizing lexeme with
  | nil => simp [spaced, List.intercalate]
  | cons next rest ih =>
      have hnext := @ih next
      simp only [spaced, List.intercalate, List.map_cons, List.intersperse_cons_cons, List.flatten_cons,
        List.flatMap_cons] at hnext ⊢
      rw [hnext]
      simp

theorem separated_flatMap : Separated (lexemes.flatMap (' ' :: ·.text)) := by
  cases lexemes <;> simp [Separated]

theorem Scan.Lexeme.Stands.read {rest : List Char} (hstands : lexeme.Stands) (hrest : Separated rest) :
    Scan.read (lexeme.text ++ rest) = .lexeme [] lexeme rest := by
  obtain ⟨hsplit, hclear⟩ := hstands rest hrest
  rw [Scan.read, hsplit]
  exact hclear []

theorem Scan.Lexeme.Stands.read_space {rest : List Char} (hstands : lexeme.Stands)
    (hrest : Separated rest) :
    Scan.read (' ' :: (lexeme.text ++ rest)) = .lexeme [' '] lexeme rest := by
  obtain ⟨hsplit, hclear⟩ := hstands rest hrest
  have hspace :
      Layout.split (' ' :: (lexeme.text ++ rest)) = .clear [' '] (lexeme.text ++ rest) := by
    rw [Layout.split] <;> simp [isLayoutBlank, hsplit, Layout.after]
  rw [Scan.read, hspace]
  exact hclear [' ']

/-! ## Lexemes that can be read -/

/-- The lexeme is read as it stands and is no integer with too many digits. -/
def Scan.Lexeme.Readable (lexeme : Lexeme) : Prop :=
  lexeme.Stands ∧
    (lexeme.kind = .int → (lexeme.data.getD "").toList.length ≤ Failure.integerDigits)

/-- Every one of the lexemes is readable. -/
def Readable (lexemes : List Lexeme) : Prop := ∀ lexeme ∈ lexemes, lexeme.Readable

@[simp] theorem readable_nil : Readable [] := by simp [Readable]

@[simp] theorem readable_append :
    Readable (lexemes ++ others) ↔ Readable lexemes ∧ Readable others := List.forall_mem_append

@[simp] theorem readable_cons :
    Readable (lexeme :: lexemes) ↔ lexeme.Readable ∧ Readable lexemes := List.forall_mem_cons

theorem readable_of_stands (hstands : lexeme.Stands) (hkind : lexeme.kind ≠ .int) :
    lexeme.Readable := ⟨hstands, fun hint => absurd hint hkind⟩

@[simp] theorem readable_ofKeyword (keyword : Keyword) : (Lexeme.ofKeyword keyword).Readable :=
  readable_of_stands (Lexeme.stands_ofKeyword keyword) (by simp [Lexeme.ofKeyword])

@[simp] theorem readable_ofSymbol (symbol : Symbol) : (Lexeme.ofSymbol symbol).Readable :=
  readable_of_stands (Lexeme.stands_ofSymbol symbol) (by simp [Lexeme.ofSymbol])

@[simp] theorem readable_ofString (value : String) : (Lexeme.ofString value).Readable :=
  readable_of_stands (Lexeme.stands_ofString value) (by simp [Lexeme.ofString])

theorem readable_ofName {n : String} (hname : IsName n) : (Lexeme.ofName n).Readable :=
  readable_of_stands (Lexeme.stands_ofName hname) (by simp [Lexeme.ofName])

theorem readable_ofTypename {type : String} (htype : IsTypename type) :
    (Lexeme.ofTypename type).Readable :=
  readable_of_stands (Lexeme.stands_ofTypename htype) (by simp [Lexeme.ofTypename])

theorem readable_ofFloat {literal : String} (hfloat : IsFloat literal) :
    (Lexeme.ofFloat literal).Readable :=
  readable_of_stands (Lexeme.stands_ofFloat hfloat) (by simp [Lexeme.ofFloat])

theorem readable_ofInt {value : Nat} (hdigits : value.repr.toList.length ≤ Failure.integerDigits) :
    (Lexeme.ofInt value).Readable :=
  ⟨Lexeme.stands_ofInt value, fun _ => hdigits⟩

/-! ## The tokens of a text -/

namespace TokenStream

/-- A lexeme that is read is handed out before the tokens of what follows it. -/
theorem passes_of_read {offset : Nat} {text skipped rest : List Char}
    (hread : Scan.read text = .lexeme skipped lexeme rest)
    (hrest : ∀ offset, ∃ stream tokens last, scan (.ofText offset rest) = .ok stream ∧
      Passes stream tokens last ∧ last.atEnd ∧ Shows lexemes tokens) :
    ∃ stream tokens last, scan (.ofText offset text) = .ok stream ∧ Passes stream tokens last ∧
      last.atEnd ∧ Shows (lexeme :: lexemes) tokens := by
  obtain ⟨stream, tokens, last, hscan, hpasses, hlast, hshows⟩ :=
    hrest (offset + skipped.length + lexeme.text.length)
  have hkind := (pieces_of_read hread).2.kind_ne.1
  rw [Upcoming.ofText_of_lexeme hread, scan]
  exact ⟨_, _, last, rfl, .cons (hands_of_scan hkind hscan) hpasses, hlast,
    shows_cons_iff.mpr ⟨_, _, rfl, ⟨rfl, rfl⟩, hshows⟩⟩

/-- Lexemes with a space before each are the tokens that are scanned. -/
theorem passes_flatMap (hstands : ∀ lexeme ∈ lexemes, lexeme.Stands) (offset : Nat) :
    ∃ stream tokens last, scan (.ofText offset (lexemes.flatMap (' ' :: ·.text))) = .ok stream ∧
      Passes stream tokens last ∧ last.atEnd ∧ Shows lexemes tokens := by
  induction lexemes generalizing offset with
  | nil =>
      refine ⟨⟨.endOfText offset, offset, .endOfText offset⟩, [], _, ?_, .nil _, rfl,
        shows_nil_iff.mpr rfl⟩
      rw [List.flatMap_nil, Upcoming.ofText_nil, scan]
  | cons lexeme rest ih =>
      obtain ⟨hlexeme, hrest⟩ := List.forall_mem_cons.mp hstands
      exact passes_of_read (hlexeme.read_space separated_flatMap) (ih hrest)

/-- The tokens of lexemes that are written with spaces between are those lexemes. -/
theorem tokens_spaced (hreadable : Readable lexemes) (uri : String) :
    ∃ tokens last, TokenStream.tokens ⟨uri, spaced lexemes⟩ = .ok (tokens ++ [last]) ∧
      Shows lexemes tokens := by
  have hstands : ∀ lexeme ∈ lexemes, lexeme.Stands := fun lexeme hmem => (hreadable lexeme hmem).1
  have hstart : ∃ stream tokens last, scan (.ofText 0 (spaced lexemes)) = .ok stream ∧
      Passes stream tokens last ∧ last.atEnd ∧ Shows lexemes tokens := by
    cases lexemes with
    | nil => exact passes_flatMap hstands 0
    | cons lexeme rest =>
        obtain ⟨hlexeme, hrest⟩ := List.forall_mem_cons.mp hstands
        rw [spaced_cons]
        exact passes_of_read (hlexeme.read separated_flatMap) (passes_flatMap hrest)
  obtain ⟨stream, tokens, last, hscan, hpasses, hlast, hshows⟩ := hstart
  have hsource : ofSource ⟨uri, spaced lexemes⟩ = .ok stream := by simp [ofSource, hscan]
  exact ⟨tokens, last.buffered,
    tokens_eq_ok_iff.mpr ⟨stream, last, tokens, hsource, hpasses, hlast, rfl⟩, hshows⟩

end TokenStream

end ClassLang
