import ClassLang.Proofs.Rendering.Lexeme

/-! # Maximal munch

A scan takes no less than it can: what follows a word, a number or a symbol could not have
belonged to it, and no symbol is taken where a number or a comment begins. Words are told apart
by their spelling alone.
-/

namespace ClassLang.Scan

/-- The spelling of a keyword. -/
def IsKeywordSpelling (word : List Char) : Prop :=
  ∃ keyword : Keyword, keyword.spelling.toList = word

/-- The spelling of a type: a primitive one, or a capital with a small letter later on. -/
def IsTypeSpelling (word : List Char) : Prop :=
  String.ofList word ∈ primitives ∨
    ∃ first later, word = first :: later ∧ first.isUpper ∧ ∃ c ∈ later, c.isLower

/-- The kind of a word that is spelled so. -/
inductive IsWordKind (word : List Char) : Kind → Prop
  | keyword {keyword : Keyword} : keyword.spelling.toList = word →
      IsWordKind word (.keyword keyword)
  | typename : ¬ IsKeywordSpelling word → IsTypeSpelling word → IsWordKind word .typename
  | name : ¬ IsKeywordSpelling word → ¬ IsTypeSpelling word → IsWordKind word .name

/-- A token of a kind is spelled so in front of `rest`, and reaches as far as a token of its sort
can. Where a string literal ends is for its delimiters to say. -/
inductive Munched : (spelling rest : List Char) → Kind → Prop
  | word {spelling rest kind} : IsIdentifier spelling →
      (∀ c ∈ rest.head?, Lexeme.isWordChar c = false) → IsWordKind spelling kind →
      Munched spelling rest kind
  | int {spelling rest} : spelling ≠ [] → (∀ c ∈ spelling, c.isDigit) →
      (∀ c ∈ rest.head?, c.isDigit = false ∧ c ≠ '.') → Munched spelling rest .int
  | float {whole fraction rest} : (∀ c ∈ whole ++ fraction, c.isDigit) → whole ++ fraction ≠ [] →
      (∀ c ∈ rest.head?, c.isDigit = false) → Munched (whole ++ '.' :: fraction) rest .float
  | symbol {symbol : Symbol} {rest} :
      (∀ longer : Symbol, longer.chars <+: symbol.chars ++ rest →
        longer.chars.length ≤ symbol.chars.length) →
      (symbol = .dot → ∀ c ∈ rest.head?, c.isDigit = false) →
      (symbol = .slash → ∀ c ∈ rest.head?, c ≠ '/' ∧ c ≠ '*') →
      Munched symbol.chars rest (.symbol symbol)
  | string {spelling rest} : Munched spelling rest .string
  | endOfText : Munched [] [] .endOfText

variable {text skipped rest : List Char} {found : Lexeme} {c : Char}

/-! ## Words -/

theorem toNat_of_isUpper (hc : c.isUpper) : 65 ≤ c.toNat ∧ c.toNat ≤ 90 :=
  of_decide_eq_true hc

theorem toNat_of_isLower (hc : c.isLower) : 97 ≤ c.toNat ∧ c.toNat ≤ 122 := by
  have hrange := Bool.and_eq_true_iff.mp hc
  exact ⟨of_decide_eq_true hrange.1, of_decide_eq_true hrange.2⟩

theorem toNat_of_isDigit (hc : c.isDigit) : 48 ≤ c.toNat ∧ c.toNat ≤ 57 := by
  have hrange := Bool.and_eq_true_iff.mp hc
  exact ⟨of_decide_eq_true hrange.1, of_decide_eq_true hrange.2⟩

theorem lt_of_isWordChar (hc : Lexeme.isWordChar c) : c.toNat < 0x80 := by
  rcases Bool.or_eq_true_iff.mp hc with hunderscore | hletter
  · rw [eq_of_beq hunderscore]
    decide
  rcases Bool.or_eq_true_iff.mp hletter with hletter | hdigit
  · rcases Bool.or_eq_true_iff.mp hletter with hupper | hlower
    · exact Nat.lt_of_le_of_lt (toNat_of_isUpper hupper).2 (by decide)
    · exact Nat.lt_of_le_of_lt (toNat_of_isLower hlower).2 (by decide)
  · exact Nat.lt_of_le_of_lt (toNat_of_isDigit hdigit).2 (by decide)

/-- Among the characters of words, those that change with case are the letters of ASCII. -/
theorem changesUpper_of_isWordChar (hc : Lexeme.isWordChar c) :
    Text.changesUpper c = c.isLower := by
  rw [Text.changesUpper, if_pos (lt_of_isWordChar hc)]

theorem isCapital_of_isWordChar (hc : Lexeme.isWordChar c) : Text.isCapital c = c.isUpper := by
  have hlower : Text.changesLower c = c.isUpper := by
    rw [Text.changesLower, if_pos (lt_of_isWordChar hc)]
  rw [Text.isCapital, changesUpper_of_isWordChar hc, hlower]
  by_cases hupper : c.isUpper
  · have hnot : c.isLower = false := by
      rw [Bool.eq_false_iff]
      intro hlower
      have hle := (toNat_of_isUpper hupper).2
      have hge := (toNat_of_isLower hlower).1
      omega
    rw [hupper, hnot]
    rfl
  · rw [Bool.not_eq_true] at hupper
    rw [hupper, Bool.and_false]

theorem isTypename_iff {word : List Char} (hword : ∀ c ∈ word, Lexeme.isWordChar c) :
    isTypename (String.ofList word) ↔ IsTypeSpelling word := by
  rw [isTypename, Bool.or_eq_true, isPrimitive, List.contains_iff_mem, IsTypeSpelling,
    String.toList_ofList]
  refine or_congr Iff.rfl ?_
  cases word with
  | nil => simp
  | cons first later =>
      obtain ⟨hfirst, hlater⟩ := List.forall_mem_cons.mp hword
      have hany : later.any Text.changesUpper ↔ ∃ c ∈ later, c.isLower := by
        rw [List.any_eq_true]
        exact exists_congr fun c => and_congr_right fun hc => by
          rw [changesUpper_of_isWordChar (hlater c hc)]
      simp only [Bool.and_eq_true, isCapital_of_isWordChar hfirst, hany]
      constructor
      · rintro ⟨hupper, hlower⟩
        exact ⟨first, later, rfl, hupper, hlower⟩
      · rintro ⟨_, _, heq, hupper, hlower⟩
        obtain ⟨rfl, rfl⟩ := List.cons.inj heq
        exact ⟨hupper, hlower⟩

/-- No keyword is spelled as a word for which there is none. -/
theorem not_isKeywordSpelling {word : List Char}
    (hnone : Keyword.ofSpelling? (String.ofList word) = none) : ¬ IsKeywordSpelling word := by
  rintro ⟨keyword, rfl⟩
  have hne := List.find?_eq_none.mp hnone keyword keyword.mem_all
  simp at hne

theorem isWordKind_ofWord {word : List Char} (hword : ∀ c ∈ word, Lexeme.isWordChar c) :
    IsWordKind word (Lexeme.ofWord word).kind := by
  unfold Lexeme.ofWord
  dsimp only
  split
  next keyword hkeyword =>
    exact .keyword (by rw [Keyword.spelling_of_ofSpelling? hkeyword, String.toList_ofList])
  next hnone =>
    have hkeyword := not_isKeywordSpelling hnone
    split
    next htype => exact .typename hkeyword ((isTypename_iff hword).mp htype)
    next htype => exact .name hkeyword fun hspelling => htype ((isTypename_iff hword).mpr hspelling)

/-- What `dropWhile` leaves begins with nothing that it drops. -/
theorem head?_dropWhile {p : Char → Bool} : ∀ c ∈ (text.dropWhile p).head?, p c = false := by
  intro c hc
  simpa [Option.mem_def.mp hc] using List.head?_dropWhile_not p text

/-- Where no number begins, no digit stands first, nor behind a point. -/
theorem not_isDigit_of_number?_eq_none (hnumber : Lexeme.number? text = none) :
    (∀ c ∈ text.head?, c.isDigit = false) ∧
      ∀ tail, text = '.' :: tail → ∀ c ∈ tail.head?, c.isDigit = false := by
  unfold Lexeme.number? at hnumber
  dsimp only at hnumber
  split at hnumber
  next hempty =>
    simp only [Bool.and_eq_true, List.isEmpty_iff] at hempty
    obtain ⟨hwhole, hfraction⟩ := hempty
    constructor
    · intro c hc
      cases text with
      | nil => simp at hc
      | cons first tail =>
          obtain rfl : first = c := by simpa using hc
          rw [Bool.eq_false_iff]
          intro hdigit
          simp [hdigit] at hwhole
    · rintro tail rfl c hc
      cases tail with
      | nil => simp at hc
      | cons first more =>
          obtain rfl : first = c := by simpa using hc
          rw [Bool.eq_false_iff]
          intro hdigit
          have hpoint : Char.isDigit '.' = false := by decide
          simp [Lexeme.splitPoint, hdigit, hpoint] at hfraction
  next => cases hnumber

theorem munched_word (hnumber : Lexeme.number? text = none)
    (hfound : Lexeme.word? text = some (found, rest)) : Munched found.text rest found.kind := by
  unfold Lexeme.word? at hfound
  dsimp only at hfound
  split at hfound
  next => cases hfound
  next hempty =>
    obtain ⟨rfl, rfl⟩ := Prod.mk.inj (Option.some.inj hfound)
    rw [Lexeme.text_ofWord]
    have hchars : (text.takeWhile Lexeme.isWordChar).all Lexeme.isWordChar := List.all_takeWhile
    refine .word ⟨hchars, ?_⟩ head?_dropWhile (isWordKind_ofWord (List.all_eq_true.mp hchars))
    cases text with
    | nil => simp at hempty
    | cons first tail =>
        have hdigit := (not_isDigit_of_number?_eq_none hnumber).1 first rfl
        by_cases hfirst : Lexeme.isWordChar first
        · simp [hfirst, hdigit]
        · simp [hfirst] at hempty

/-! ## Numbers -/

theorem munched_number (hfound : Lexeme.number? text = some (found, rest)) :
    Munched found.text rest found.kind := by
  unfold Lexeme.number? at hfound
  dsimp only at hfound
  split at hfound
  next => cases hfound
  next hempty =>
    obtain ⟨rfl, rfl⟩ := Prod.mk.inj (Option.some.inj hfound)
    have hwhole : ∀ c ∈ text.takeWhile Char.isDigit, c.isDigit :=
      List.all_eq_true.mp List.all_takeWhile
    have hafter : ∀ c ∈ (text.dropWhile Char.isDigit).head?, c.isDigit = false := head?_dropWhile
    generalize text.takeWhile Char.isDigit = whole at *
    generalize text.dropWhile Char.isDigit = after at *
    dsimp only
    by_cases hpoint : ∃ tail, after = '.' :: tail
    · obtain ⟨tail, rfl⟩ := hpoint
      have hfraction : ∀ c ∈ tail.takeWhile Char.isDigit, c.isDigit :=
        List.all_eq_true.mp List.all_takeWhile
      have hne : whole ++ tail.takeWhile Char.isDigit ≠ [] := by
        simpa [Lexeme.splitPoint] using hempty
      simpa [Lexeme.splitPoint] using
        Munched.float (List.forall_mem_append.mpr ⟨hwhole, hfraction⟩) hne head?_dropWhile
    · have hsplit : Lexeme.splitPoint after = ([], after) := by
        unfold Lexeme.splitPoint
        split
        next tail => exact absurd ⟨tail, rfl⟩ hpoint
        next => rfl
      -- with no point there is no digit behind the first ones, and nothing else is taken
      have hnone : after.takeWhile Char.isDigit = [] ∧ after.dropWhile Char.isDigit = after := by
        cases after with
        | nil => exact ⟨rfl, rfl⟩
        | cons first tail => simp [hafter first rfl]
      simp only [hsplit, hnone.1, hnone.2, List.append_nil] at hempty ⊢
      refine .int (by simpa using hempty) hwhole fun c hc => ⟨hafter c hc, ?_⟩
      rintro rfl
      obtain ⟨tail, htail⟩ := List.head?_eq_some_iff.mp (Option.mem_def.mp hc)
      exact hpoint ⟨tail, htail⟩

/-! ## Symbols -/

/-- The symbol that is taken is the longest one. -/
theorem length_le_of_longest? {symbol longer : Symbol}
    (hlongest : Symbol.longest? text = some symbol) (hbegins : longer.chars <+: text) :
    longer.chars.length ≤ symbol.chars.length := by
  obtain ⟨-, earlier, later, hlist, hearlier⟩ := List.find?_eq_some_iff_append.mp hlongest
  have hsorted := Symbol.longestFirst_sorted
  have hmem := longer.mem_longestFirst
  rw [hlist] at hsorted hmem
  rcases List.mem_append.mp hmem with hmem | hmem
  · have hnot := hearlier longer hmem
    simp [List.isPrefixOf_iff_prefix.mpr hbegins] at hnot
  · rcases List.mem_cons.mp hmem with rfl | hmem
    · exact Nat.le_refl _
    · exact (List.pairwise_cons.mp (List.pairwise_append.mp hsorted).2.1).1 longer hmem

/-- No comment begins where layout ends. -/
theorem not_comment_of_split (hsplit : Layout.split text = .clear skipped rest) :
    ∀ tail, rest = '/' :: tail → ∀ c ∈ tail.head?, c ≠ '/' ∧ c ≠ '*' := by
  fun_induction Layout.split text generalizing skipped with
  | case1 after comment =>
      rename_i ih
      obtain ⟨gap, hmore, rfl⟩ := Layout.after_eq_clear_iff.mp hsplit
      exact ih hmore
  | case2 after comment more hclose ih =>
      obtain ⟨gap, hmore, rfl⟩ := Layout.after_eq_clear_iff.mp hsplit
      exact ih hmore
  | case3 => cases hsplit
  | case4 first after _ _ hblank ih =>
      obtain ⟨gap, hmore, rfl⟩ := Layout.after_eq_clear_iff.mp hsplit
      exact ih hmore
  | case5 first after hline hblock _ =>
      obtain ⟨rfl, rfl⟩ := Layout.clear.inj hsplit
      intro tail htail c hc
      obtain ⟨rfl, rfl⟩ := List.cons.inj htail
      obtain ⟨more, rfl⟩ := List.head?_eq_some_iff.mp (Option.mem_def.mp hc)
      constructor
      · rintro rfl
        exact hline more rfl rfl
      · rintro rfl
        exact hblock more rfl rfl
  | case6 =>
      obtain ⟨rfl, rfl⟩ := Layout.clear.inj hsplit
      intro tail htail
      cases htail

theorem munched_symbol (hnumber : Lexeme.number? text = none)
    (hcomment : ∀ tail, text = '/' :: tail → ∀ c ∈ tail.head?, c ≠ '/' ∧ c ≠ '*')
    (hfound : Lexeme.symbol? text = some (found, rest)) : Munched found.text rest found.kind := by
  have hsplits := (Lexeme.splits_symbol? hfound).2
  obtain ⟨symbol, hlongest, heq⟩ := Option.map_eq_some_iff.mp hfound
  obtain ⟨rfl, -⟩ := Prod.mk.inj heq
  dsimp only at hsplits ⊢
  refine .symbol (fun longer hbegins => ?_) ?_ ?_
  · rw [hsplits] at hbegins
    exact length_le_of_longest? hlongest hbegins
  · rintro rfl
    exact (not_isDigit_of_number?_eq_none hnumber).2 rest hsplits.symm
  · rintro rfl
    exact hcomment rest hsplits.symm

/-! ## Scans -/

theorem munched_plain (hcomment : ∀ tail, text = '/' :: tail → ∀ c ∈ tail.head?, c ≠ '/' ∧ c ≠ '*')
    (hfound : Lexeme.plain? text = some (found, rest)) : Munched found.text rest found.kind := by
  rcases Option.or_eq_some_iff.mp hfound with hnumber | ⟨hnumber, hrest⟩
  · exact munched_number hnumber
  · rcases Option.or_eq_some_iff.mp hrest with hword | ⟨_, hsymbol⟩
    · exact munched_word hnumber hword
    · exact munched_symbol hnumber hcomment hsymbol

/-- A scan takes as much as it can. -/
theorem munched_of_read (hread : read text = .lexeme skipped found rest) :
    Munched found.text rest found.kind := by
  unfold read at hread
  split at hread
  next gap after hsplit =>
    unfold clear at hread
    split at hread
    next => cases hread
    next =>
      split at hread
      next =>
        split at hread
        next =>
          obtain ⟨-, rfl, -⟩ := Scan.lexeme.inj hread
          exact .string
        next => cases hread
        next => cases hread
      next =>
        split at hread
        next hfound =>
          obtain ⟨-, rfl, rfl⟩ := Scan.lexeme.inj hread
          exact munched_plain (not_comment_of_split hsplit) hfound
        next => cases hread
  next => cases hread

end ClassLang.Scan
