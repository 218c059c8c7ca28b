import ClassLang.Proofs.Scan.StringLiteral

/-! # Writing lexemes

How keywords, symbols, names and literals are written so that they can be read
back. Each lexeme that is written is found again wherever a blank or the end of
the text follows it.
-/

namespace ClassLang.Scan

namespace Lexeme

/-- A keyword. -/
def ofKeyword (keyword : Keyword) : Lexeme := ⟨.keyword keyword, none, keyword.spelling.toList⟩

/-- A symbol. -/
def ofSymbol (symbol : Symbol) : Lexeme := ⟨.symbol symbol, none, symbol.chars⟩

/-- A name. -/
def ofName (name : String) : Lexeme := ⟨.name, some name, name.toList⟩

/-- The name of a type. -/
def ofTypename (type : String) : Lexeme := ⟨.typename, some type, type.toList⟩

/-- An integer, in decimal digits. -/
def ofInt (value : Nat) : Lexeme := ⟨.int, some value.repr, value.repr.toList⟩

/-- A floating point literal, spelled as given. -/
def ofFloat (literal : String) : Lexeme := ⟨.float, some literal, literal.toList⟩

/-- A character of a literal in double quotes: a backslash stands before a backslash and before
a double quote. -/
def escape (c : Char) : List Char := if c = '\\' ∨ c = '\x22' then ['\\', c] else [c]

/-- A string literal in double quotes. -/
def ofString (value : String) : Lexeme :=
  ⟨.string, some value, '\x22' :: value.toList.flatMap escape ++ ['\x22']⟩

end Lexeme

/-- The characters of a word: letters, digits and underscores, of which no digit is the first. -/
def IsIdentifier (word : List Char) : Prop :=
  word.all Lexeme.isWordChar ∧ word.head?.any (!·.isDigit)

instance (word : List Char) : Decidable (IsIdentifier word) := inferInstanceAs (Decidable (_ ∧ _))

/-- The text is a lexeme of the kind of names. -/
def IsName (text : String) : Prop :=
  IsIdentifier text.toList ∧ isKeyword text = false ∧ isTypename text = false

instance (text : String) : Decidable (IsName text) := inferInstanceAs (Decidable (_ ∧ _ ∧ _))

/-- The text is a lexeme of the kind of names of types. -/
def IsTypename (text : String) : Prop :=
  IsIdentifier text.toList ∧ isKeyword text = false ∧ isTypename text = true

instance (text : String) : Decidable (IsTypename text) := inferInstanceAs (Decidable (_ ∧ _ ∧ _))

/-- The text is a floating point literal: digits before and after a point, on one side at
least. -/
def IsFloat (text : String) : Prop :=
  ∃ whole fraction, text.toList = whole ++ '.' :: fraction ∧
    (whole ++ fraction).all Char.isDigit ∧ whole ++ fraction ≠ []

/-- A blank or the end of a text. -/
def Separated (rest : List Char) : Prop := ∀ c ∈ rest.head?, c = ' '

/-- Where a blank or the end of the text follows, the lexeme is read as it stands. -/
def Lexeme.Stands (lexeme : Lexeme) : Prop :=
  ∀ rest, Separated rest →
    Layout.split (lexeme.text ++ rest) = .clear [] (lexeme.text ++ rest) ∧
      ∀ skipped, clear skipped (lexeme.text ++ rest) = .lexeme skipped lexeme rest

variable {rest text : List Char} {c : Char}

/-! ## Where readers stop -/

/-- Characters of a class are taken up to a blank that is not in it. -/
theorem takeWhile_separated {p : Char → Bool} (htext : ∀ c ∈ text, p c) (hblank : p ' ' = false)
    (hrest : Separated rest) :
    (text ++ rest).takeWhile p = text ∧ (text ++ rest).dropWhile p = rest := by
  have hstop : rest.takeWhile p = [] ∧ rest.dropWhile p = rest := by
    cases rest with
    | nil => exact ⟨rfl, rfl⟩
    | cons first more =>
        have hfirst : p first = false := by rw [hrest first rfl, hblank]
        simp [hfirst]
  rw [List.takeWhile_append_of_pos htext, List.dropWhile_append_of_pos htext, hstop.1, hstop.2,
    List.append_nil]
  exact ⟨rfl, rfl⟩

theorem Opening.find?_eq_none (hfirst : isQuote c = false)
    (hnext : ∀ q ∈ rest.head?, isQuote q = false) : Opening.find? (c :: rest) = none := by
  cases rest with
  | nil => simp [Opening.find?, hfirst]
  | cons next more => simp [Opening.find?, hfirst, hnext next rfl]

/-- A lexeme that is no string literal stands if nothing else can begin with its characters. -/
theorem Lexeme.stands_of_plain? {lexeme : Lexeme}
    (hplain : ∀ rest, Separated rest →
      Layout.split (lexeme.text ++ rest) = .clear [] (lexeme.text ++ rest) ∧
        Opening.find? (lexeme.text ++ rest) = none ∧
        plain? (lexeme.text ++ rest) = some (lexeme, rest)) : lexeme.Stands := by
  intro rest hrest
  obtain ⟨hsplit, hopening, hfound⟩ := hplain rest hrest
  refine ⟨hsplit, fun skipped => ?_⟩
  obtain ⟨hne, hjoin⟩ := splits_plain? hfound
  obtain ⟨c, more, htext⟩ := List.exists_cons_of_ne_nil hne
  rw [htext, List.cons_append] at hopening hfound ⊢
  simp [clear, hopening, hfound]

/-- The characters of words and numbers. -/
def IsPlain (c : Char) : Prop := Lexeme.isWordChar c ∨ c = '.'

theorem IsPlain.not_mem (hc : IsPlain c) {cs : List Char}
    (hcs : cs.all fun d => !Lexeme.isWordChar d && d != '.') : c ∉ cs := by
  intro hmem
  have hnone := List.all_eq_true.mp hcs c hmem
  rcases hc with hword | rfl
  · simp [hword] at hnone
  · simp at hnone

/-- No string literal begins with the characters of a word or number. -/
theorem IsPlain.isQuote (hc : IsPlain c) : isQuote c = false := by
  have hmem : c ∉ ['\x27', '\x22'] := hc.not_mem (by decide)
  simpa [Scan.isQuote] using hmem

/-- A lexeme of such characters stands if it is found where nothing follows that belongs to
it. -/
theorem Lexeme.stands_of_plain {lexeme : Lexeme} (hchars : ∀ c ∈ lexeme.text, IsPlain c)
    (hplain : ∀ rest, Separated rest → plain? (lexeme.text ++ rest) = some (lexeme, rest)) :
    lexeme.Stands := by
  apply stands_of_plain?
  intro rest hrest
  have hfound := hplain rest hrest
  obtain ⟨c, word, htext⟩ := List.exists_cons_of_ne_nil (splits_plain? hfound).1
  rw [htext] at hchars hfound ⊢
  have hc := hchars c List.mem_cons_self
  refine ⟨Layout.split_clear ?_ ?_, Opening.find?_eq_none hc.isQuote ?_, hfound⟩
  · rw [Bool.eq_false_iff]
    intro hblank
    exact hc.not_mem (by decide) (isLayoutBlank_iff.mp hblank)
  · intro hslash
    exact absurd (List.mem_singleton.mpr hslash) (hc.not_mem (by decide))
  · intro next hnext
    cases word with
    | nil =>
        rw [hrest next hnext]
        decide
    | cons next' more =>
        obtain rfl : next' = next := by simpa using hnext
        exact (hchars next' (by simp)).isQuote

/-! ## Words -/

/-- Words are read as far as they reach. -/
theorem Lexeme.stands_ofWord (hword : IsIdentifier text) : (ofWord text).Stands := by
  obtain ⟨hall, hfirst⟩ := hword
  have hchars := List.all_eq_true.mp hall
  apply stands_of_plain
  · intro c hc
    rw [text_ofWord] at hc
    exact .inl (hchars c hc)
  · intro rest hrest
    obtain ⟨htake, hdrop⟩ := takeWhile_separated hchars (by decide) hrest
    rw [text_ofWord]
    cases text with
    | nil => simp at hfirst
    | cons c word =>
        have hdigit : c.isDigit = false := by simpa using hfirst
        have hpoint : c ≠ '.' := by
          rintro rfl
          exact absurd (hchars _ List.mem_cons_self) (by decide)
        have hnumber : number? (c :: word ++ rest) = none := by
          simp [number?, hdigit, splitPoint, hpoint]
        have hfound : word? (c :: word ++ rest) = some (ofWord (c :: word), rest) := by
          unfold word?
          simp only [htake, hdrop]
          rfl
        rw [plain?, hnumber, hfound]
        rfl

theorem Lexeme.stands_ofKeyword (keyword : Keyword) : (ofKeyword keyword).Stands := by
  have hword : ofWord keyword.spelling.toList = ofKeyword keyword := by
    cases keyword <;> decide
  rw [← hword]
  apply stands_ofWord
  cases keyword <;> decide

theorem Lexeme.stands_ofName {name : String} (hname : IsName name) : (ofName name).Stands := by
  obtain ⟨hword, hkeyword, htype⟩ := hname
  have heq : ofWord name.toList = ofName name := by
    have hnone : Keyword.ofSpelling? name = none := by simpa [isKeyword] using hkeyword
    simp [ofWord, ofName, hnone, htype]
  exact heq ▸ stands_ofWord hword

theorem Lexeme.stands_ofTypename {type : String} (htypename : IsTypename type) :
    (ofTypename type).Stands := by
  obtain ⟨hword, hkeyword, htype⟩ := htypename
  have heq : ofWord type.toList = ofTypename type := by
    have hnone : Keyword.ofSpelling? type = none := by simpa [isKeyword] using hkeyword
    simp [ofWord, ofTypename, hnone, htype]
  exact heq ▸ stands_ofWord hword

/-! ## Symbols -/

theorem Separated.cases (hrest : Separated rest) : rest = [] ∨ ∃ more, rest = ' ' :: more := by
  cases rest with
  | nil => exact .inl rfl
  | cons first more => exact .inr ⟨more, by rw [hrest first rfl]⟩

/-- No longer symbol begins with a symbol and a blank, and no number with a point and a blank. -/
theorem Lexeme.stands_ofSymbol (symbol : Symbol) : (ofSymbol symbol).Stands := by
  apply stands_of_plain?
  intro rest hrest
  refine ⟨?_, ?_, ?_⟩
  · rcases hrest.cases with rfl | ⟨more, rfl⟩ <;> cases symbol <;>
      exact Layout.split_clear rfl (by simp)
  · rcases hrest.cases with rfl | ⟨more, rfl⟩ <;> cases symbol <;> rfl
  · rcases hrest.cases with rfl | ⟨more, rfl⟩ <;> cases symbol <;> rfl

/-! ## Literals -/

theorem IsPlain.of_isDigit (hc : c.isDigit) : IsPlain c := by
  simp [IsPlain, Lexeme.isWordChar, Char.isAlphanum, hc]

/-- Digits alone are an integer. -/
theorem Lexeme.number?_int (htext : ∀ c ∈ text, c.isDigit) (hne : text ≠ [])
    (hrest : Separated rest) :
    number? (text ++ rest) = some (⟨.int, some (String.ofList text), text⟩, rest) := by
  obtain ⟨htake, hdrop⟩ := takeWhile_separated htext (by decide) hrest
  have hpoint : splitPoint rest = ([], rest) := by
    rcases hrest.cases with rfl | ⟨more, rfl⟩ <;> rfl
  have hstop := @takeWhile_separated rest [] Char.isDigit (by simp) (by decide) hrest
  unfold number?
  simp only [htake, hdrop, hpoint]
  simp_all

/-- Digits around a point are a floating point number. -/
theorem Lexeme.number?_float {whole fraction : List Char} (hwhole : ∀ c ∈ whole, c.isDigit)
    (hfraction : ∀ c ∈ fraction, c.isDigit) (hne : whole ++ fraction ≠ [])
    (hrest : Separated rest) :
    number? (whole ++ '.' :: fraction ++ rest) =
      some (⟨.float, some (String.ofList (whole ++ '.' :: fraction)), whole ++ '.' :: fraction⟩,
        rest) := by
  obtain ⟨htake, hdrop⟩ := takeWhile_separated hfraction (by decide) hrest
  have hstop : ∀ more, ('.' :: more).takeWhile Char.isDigit = [] ∧
      ('.' :: more).dropWhile Char.isDigit = '.' :: more := fun _ => ⟨rfl, rfl⟩
  rw [List.append_assoc, List.cons_append]
  unfold number?
  rw [List.takeWhile_append_of_pos hwhole, List.dropWhile_append_of_pos hwhole, (hstop _).1,
    (hstop _).2, List.append_nil]
  simp only [splitPoint, htake, hdrop]
  rw [if_neg (by simpa using hne)]
  simp

theorem Lexeme.stands_ofInt (value : Nat) : (ofInt value).Stands := by
  have hdigits : ∀ c ∈ value.repr.toList, c.isDigit := by
    intro c hc
    rw [Nat.toList_repr] at hc
    exact Nat.isDigit_of_mem_toDigits (by decide) (by decide) hc
  have hne : value.repr.toList ≠ [] := by
    rw [Nat.toList_repr]
    exact Nat.toDigits_ne_nil
  apply stands_of_plain
  · intro c hc
    exact .of_isDigit (hdigits c hc)
  · intro rest hrest
    have hnumber := number?_int hdigits hne hrest
    rw [String.ofList_toList] at hnumber
    rw [plain?, ofInt, hnumber]
    rfl

theorem Lexeme.stands_ofFloat {literal : String} (hfloat : IsFloat literal) :
    (ofFloat literal).Stands := by
  obtain ⟨whole, fraction, hliteral, hdigits, hne⟩ := hfloat
  obtain ⟨hwhole, hfraction⟩ := List.forall_mem_append.mp (List.all_eq_true.mp hdigits)
  apply stands_of_plain
  · intro c hc
    simp only [ofFloat, hliteral, List.mem_append, List.mem_cons] at hc
    rcases hc with hc | rfl | hc
    · exact .of_isDigit (hwhole c hc)
    · exact .inr rfl
    · exact .of_isDigit (hfraction c hc)
  · intro rest hrest
    have hnumber := number?_float hwhole hfraction hne hrest
    rw [← hliteral, String.ofList_toList] at hnumber
    rw [plain?, ofFloat, hnumber]
    rfl

theorem Lexeme.writesChar_escape (c : Char) : WritesChar '\x22' c (escape c) := by
  unfold escape
  split
  next hspecial => exact .escaped hspecial
  next hplain => exact .plain (not_or.mp hplain).1 (not_or.mp hplain).2

/-- Neither a blank nor the end of the text makes three quotes of the two of an empty literal. -/
theorem Lexeme.stands_ofString (value : String) : (ofString value).Stands := by
  intro rest hrest
  have hcloses : (⟨false, ['\x22']⟩ : Opening).Closes '\x22' := ⟨rfl, .inl rfl⟩
  have hwrites : List.Forall₂ (WritesChar '\x22') value.toList (value.toList.map escape) :=
    List.forall₂_map_right_iff.mpr (List.forall₂_same.mpr fun c _ => writesChar_escape c)
  have hfollow : rest.head? ≠ some '\x22' := by
    rcases hrest.cases with rfl | ⟨more, rfl⟩ <;> simp
  have hclear (skipped : List Char) := clear_literal skipped hcloses
    (decodes_of_writes hcloses rfl hwrites) fun _ _ => hfollow
  refine ⟨Layout.split_clear (by decide) (by simp), fun skipped => ?_⟩
  simpa [ofString, Opening.text, List.flatMap_def] using hclear skipped

end ClassLang.Scan
