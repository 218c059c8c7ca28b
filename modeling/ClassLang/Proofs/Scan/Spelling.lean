import ClassLang.Scan.Basic

/-! # Layout and spelling

What a scan may skip before a token, and the characters that a token is
spelled with, both described without reading anything. Every scan that finds a
token cuts the text into such pieces.
-/

namespace ClassLang.Scan

/-- Blanks and comments before `rest`. A comment that begins with two slashes runs up to a line
feed or the end of the text, any other one to the first `*/`. -/
inductive IsLayout : List Char → List Char → Prop
  | nil {rest} : IsLayout [] rest
  | blank {c gap rest} : c ∈ [' ', '\r', '\n', '\t'] → IsLayout gap rest →
      IsLayout (c :: gap) rest
  | line {comment gap rest} : '\n' ∉ comment → (∀ c ∈ (gap ++ rest).head?, c = '\n') →
      IsLayout gap rest → IsLayout ('/' :: '/' :: comment ++ gap) rest
  | block {comment gap rest} : ¬ ['*', '/'] <:+: comment ++ ['*'] → IsLayout gap rest →
      IsLayout ('/' :: '*' :: comment ++ '*' :: '/' :: gap) rest

/-- The characters between the delimiters of a literal, and those that they stand for. The
literal closes with the first delimiter that stands where a character could begin. -/
inductive Decodes (opening : Opening) : List Char → List Char → Prop
  | nil : Decodes opening [] []
  | plain {c body data} : ¬ opening.delimiter <+: c :: body ++ opening.delimiter →
      (c = '\\' → opening.raw = true) → Decodes opening body data →
      Decodes opening (c :: body) (c :: data)
  | escape {escaped c body data} : opening.raw = false → unescape? escaped = some c →
      Decodes opening body data → Decodes opening ('\\' :: escaped :: body) (c :: data)

/-- The characters that a token of a kind is spelled with, given what the token carries. -/
inductive Spells : List Char → Kind → Option String → Prop
  | keyword (keyword : Keyword) : Spells keyword.spelling.toList (.keyword keyword) none
  | symbol (symbol : Symbol) : Spells symbol.spelling.toList (.symbol symbol) none
  | plain {kind text} : kind ∈ [Kind.int, .float, .name, .typename] →
      Spells text kind (some (String.ofList text))
  | string {quote opening body data} : isQuote quote →
      opening.delimiter = [quote] ∨ opening.delimiter = [quote, quote, quote] →
      Decodes opening body data →
      Spells (opening.text ++ body ++ opening.delimiter) .string (some (String.ofList data))

/-- Neither the end of a text nor a stretch that is no token is spelled. -/
theorem Spells.kind_ne {text : List Char} {kind : Kind} {data : Option String}
    (hspells : Spells text kind data) : kind ≠ .endOfText ∧ kind ≠ .error := by
  cases hspells with
  | keyword => simp
  | symbol => simp
  | plain hkind => constructor <;> rintro rfl <;> simp at hkind
  | string => simp

/-! ## Layout -/

theorem isLayoutBlank_iff {c : Char} : isLayoutBlank c ↔ c ∈ [' ', '\r', '\n', '\t'] := by
  simp [isLayoutBlank, or_assoc]

/-- What is split off a comment ends with the first `*/`. -/
theorem splitCommentEnd_first {text comment rest : List Char}
    (hsplit : splitCommentEnd text = some (comment, rest)) :
    ∃ body, comment = body ++ ['*', '/'] ∧ ¬ ['*', '/'] <:+: body ++ ['*'] := by
  fun_induction splitCommentEnd text generalizing comment with
  | case1 => simp at hsplit
  | case2 after =>
      obtain ⟨rfl, rfl⟩ : ['*', '/'] = comment ∧ after = rest := by simpa using hsplit
      exact ⟨[], rfl, by decide⟩
  | case3 c after hopen ih =>
      obtain ⟨⟨inner, tail⟩, hinner, heq⟩ := Option.map_eq_some_iff.mp hsplit
      obtain ⟨rfl, rfl⟩ : c :: inner = comment ∧ tail = rest := by simpa using heq
      obtain ⟨body, rfl, hfirst⟩ := ih hinner
      refine ⟨c :: body, rfl, ?_⟩
      intro hinfix
      rcases List.infix_cons_iff.mp hinfix with hprefix | hinfix
      · have hafter := append_of_splitCommentEnd hinner
        cases body with
        | nil => simp at hprefix
        | cons next body =>
            obtain ⟨rfl, rfl⟩ : '*' = c ∧ '/' = next := by simpa using hprefix
            exact hopen _ rfl hafter.symm
      · exact hfirst hinfix

/-- More layout in front leaves what follows it alone. -/
theorem Layout.after_eq_clear_iff {front skipped rest : List Char} {layout : Layout} :
    layout.after front = .clear skipped rest ↔
      ∃ gap, layout = .clear gap rest ∧ skipped = front ++ gap := by
  cases layout with
  | clear => grind [Layout.after]
  | openComment => simp [Layout.after]

/-- What is skipped at the front of a text is layout. -/
theorem isLayout_of_split {text skipped rest : List Char}
    (hsplit : Layout.split text = .clear skipped rest) : IsLayout skipped rest := by
  fun_induction Layout.split text generalizing skipped with
  | case1 after comment =>
      rename_i ih
      obtain ⟨gap, hmore, rfl⟩ := Layout.after_eq_clear_iff.mp hsplit
      have hjoin := Layout.text_split (after.dropWhile (· != '\n'))
      rw [hmore, Layout.text] at hjoin
      refine .line ?_ ?_ (ih hmore)
      · intro hmem
        simpa using List.all_eq_true.mp List.all_takeWhile _ hmem
      · intro c hc
        rw [hjoin] at hc
        simpa [Option.mem_def.mp hc] using List.head?_dropWhile_not (· != '\n') after
  | case2 after comment more hclose ih =>
      obtain ⟨gap, hmore, rfl⟩ := Layout.after_eq_clear_iff.mp hsplit
      obtain ⟨body, rfl, hfirst⟩ := splitCommentEnd_first hclose
      have hblock := IsLayout.block hfirst (ih hmore)
      simpa using hblock
  | case3 => simp at hsplit
  | case4 c after _ _ hblank ih =>
      obtain ⟨gap, hmore, rfl⟩ := Layout.after_eq_clear_iff.mp hsplit
      exact .blank (isLayoutBlank_iff.mp hblank) (ih hmore)
  | case5 =>
      obtain ⟨rfl, rfl⟩ := Layout.clear.inj hsplit
      exact .nil
  | case6 =>
      obtain ⟨rfl, rfl⟩ := Layout.clear.inj hsplit
      exact .nil

/-- A text that begins with neither a blank nor a comment begins with no layout. -/
theorem Layout.split_clear {c : Char} {rest : List Char} (hblank : isLayoutBlank c = false)
    (hslash : c = '/' → ∀ next ∈ rest.head?, next ≠ '/' ∧ next ≠ '*') :
    Layout.split (c :: rest) = .clear [] (c :: rest) := by
  unfold Layout.split
  split
  next heq =>
    obtain ⟨rfl, rfl⟩ := List.cons.inj heq
    exact absurd rfl (hslash rfl '/' rfl).1
  next heq =>
    obtain ⟨rfl, rfl⟩ := List.cons.inj heq
    exact absurd rfl (hslash rfl '*' rfl).2
  next heq =>
    obtain ⟨rfl, rfl⟩ := List.cons.inj heq
    simp [hblank]
  next heq => cases heq

/-! ## Spelling -/

/-- The delimiter is one quote or three equal ones. -/
structure Opening.Closes (opening : Opening) (quote : Char) : Prop where
  isQuote : isQuote quote
  delimiter : opening.delimiter = [quote] ∨ opening.delimiter = [quote, quote, quote]

theorem Opening.closes_of_find? {text : List Char} {opening : Opening}
    (hfind : Opening.find? text = some opening) : ∃ quote, opening.Closes quote := by
  have hdelimiter : ∀ quote rest, Opening.delimiterAt quote rest = [quote] ∨
      Opening.delimiterAt quote rest = [quote, quote, quote] := by
    intro quote rest
    unfold Opening.delimiterAt
    split <;> simp
  unfold Opening.find? at hfind
  split at hfind
  next => simp at hfind
  next c rest =>
    split at hfind
    next hquote =>
      obtain rfl := Option.some.inj hfind
      exact ⟨c, hquote, hdelimiter _ _⟩
    next =>
      split at hfind
      next quote more =>
        split at hfind
        next hraw =>
          obtain rfl := Option.some.inj hfind
          exact ⟨quote, hraw.2, hdelimiter _ _⟩
        next => simp at hfind
      next => simp at hfind

/-- A character in front leaves the end of a literal alone. -/
theorem Body.cons_eq_closed_iff {c : Char} {front data spelling rest : List Char} {body : Body} :
    body.cons c front = .closed data spelling rest ↔
      ∃ data' spelling', body = .closed data' spelling' rest ∧ data = c :: data' ∧
        spelling = front ++ spelling' := by
  cases body with
  | closed => grind [Body.cons]
  | unclosed => simp [Body.cons]
  | badEscape => simp [Body.cons]

/-- What is read after an opening decodes to the data and closes as it opened. -/
theorem Body.decodes_of_read {opening : Opening} {text data spelling rest : List Char}
    (hread : Body.read opening text = .closed data spelling rest) :
    ∃ body, spelling = body ++ opening.delimiter ∧ Decodes opening body data := by
  fun_induction Body.read opening text generalizing data spelling with
  | case1 => simp at hread
  | case2 =>
      obtain ⟨rfl, rfl, _⟩ := Body.closed.inj hread
      exact ⟨[], rfl, .nil⟩
  | case3 => simp at hread
  | case4 c hescape escaped more decoded hdecoded hopen ih =>
      obtain ⟨data', spelling', hmore, rfl, rfl⟩ := Body.cons_eq_closed_iff.mp hread
      obtain ⟨body, rfl, hbody⟩ := ih hmore
      obtain ⟨rfl, hraw⟩ := hescape
      exact ⟨_, rfl, .escape hraw hdecoded hbody⟩
  | case5 => simp at hread
  | case6 c more hopen hescape ih =>
      obtain ⟨data', spelling', hmore, rfl, rfl⟩ := Body.cons_eq_closed_iff.mp hread
      have hcovers := Body.covers_read opening more
      rw [hmore] at hcovers
      obtain ⟨body, rfl, hbody⟩ := ih hmore
      refine ⟨c :: body, rfl, .plain ?_ ?_ hbody⟩
      · intro hcloses
        apply hopen
        rw [← hcovers]
        exact List.isPrefixOf_iff_prefix.mpr (hcloses.trans (List.prefix_append _ rest))
      · intro hbackslash
        simpa [hbackslash] using hescape

theorem Lexeme.spells_ofWord (word : List Char) :
    Spells word (Lexeme.ofWord word).kind (Lexeme.ofWord word).data := by
  unfold Lexeme.ofWord
  dsimp only
  split
  next keyword hkeyword =>
    have hspells := Spells.keyword keyword
    rwa [Keyword.spelling_of_ofSpelling? hkeyword, String.toList_ofList] at hspells
  next =>
    apply Spells.plain
    split <;> simp

/-- A number, word or symbol that is found is spelled as it stands. -/
theorem Lexeme.spells_plain? {text rest : List Char} {found : Lexeme}
    (hfound : Lexeme.plain? text = some (found, rest)) :
    Spells found.text found.kind found.data := by
  rcases Option.or_eq_some_iff.mp hfound with hnumber | ⟨_, hrest⟩
  · unfold Lexeme.number? at hnumber
    dsimp only at hnumber
    split at hnumber
    next => simp at hnumber
    next =>
      obtain ⟨rfl, _⟩ := Prod.mk.inj (Option.some.inj hnumber)
      apply Spells.plain
      dsimp only
      split <;> simp
  · rcases Option.or_eq_some_iff.mp hrest with hword | ⟨_, hsymbol⟩
    · unfold Lexeme.word? at hword
      dsimp only at hword
      split at hword
      next => simp at hword
      next =>
        obtain ⟨rfl, _⟩ := Prod.mk.inj (Option.some.inj hword)
        rw [Lexeme.text_ofWord]
        exact Lexeme.spells_ofWord _
    · obtain ⟨symbol, _, heq⟩ := Option.map_eq_some_iff.mp hsymbol
      obtain ⟨rfl, _⟩ := Prod.mk.inj heq
      simpa [Symbol.spelling] using Spells.symbol symbol

/-- A scan that finds a token skips layout and takes the spelling of the token. -/
theorem pieces_of_read {text skipped rest : List Char} {found : Lexeme}
    (hread : read text = .lexeme skipped found rest) :
    IsLayout skipped (found.text ++ rest) ∧ Spells found.text found.kind found.data := by
  have hwhole := text_read text
  unfold read at hread
  split at hread
  next gap after hsplit =>
    have hlayout := isLayout_of_split hsplit
    have hcorrect := (clear_correct gap after).1
    rw [hread] at hcorrect
    unfold clear at hread
    split at hread
    next => simp at hread
    next c more =>
      split at hread
      next opening hopening =>
        split at hread
        next data spelling left hbody =>
          obtain ⟨rfl, rfl, rfl⟩ := Scan.lexeme.inj hread
          obtain ⟨quote, hquote, hdelimiter⟩ := Opening.closes_of_find? hopening
          obtain ⟨body, rfl, hdecodes⟩ := Body.decodes_of_read hbody
          have hrest : (opening.text ++ (body ++ opening.delimiter)) ++ left = c :: more := by
            simpa [Scan.text] using hcorrect
          refine ⟨hrest ▸ hlayout, ?_⟩
          simpa using Spells.string hquote hdelimiter hdecodes
        next => simp at hread
        next => simp at hread
      next =>
        split at hread
        next found' left hfound =>
          obtain ⟨rfl, rfl, rfl⟩ := Scan.lexeme.inj hread
          have hrest : found'.text ++ left = c :: more := by simpa [Scan.text] using hcorrect
          exact ⟨hrest ▸ hlayout, Lexeme.spells_plain? hfound⟩
        next => simp at hread
  next => simp at hread

/-- A scan that finds the end of the text skips nothing but layout. -/
theorem isLayout_of_read_end {text skipped : List Char} (hread : read text = .endOfText skipped) :
    IsLayout skipped [] := by
  unfold read at hread
  split at hread
  next gap after hsplit =>
    cases after with
    | nil =>
        obtain rfl : gap = skipped := by simpa [clear] using hread
        exact isLayout_of_split hsplit
    | cons c more =>
        unfold clear at hread
        split at hread
        next => contradiction
        next =>
          split at hread
          next => split at hread <;> simp at hread
          next => split at hread <;> simp at hread
  next => simp at hread

end ClassLang.Scan
