/-! # String literals

A string literal stands between two equal delimiters, one or three quotes of
the same sort. A backslash in it introduces an escape, unless the letter `r`
before the literal makes it raw.
-/

namespace ClassLang.Scan

/-- A single or a double quote. -/
def isQuote (c : Char) : Bool := c == '\x27' || c == '\x22'

/-- The character that a backslash and the given character stand for. -/
def unescape? : Char → Option Char
  | 't' => some '\t'
  | 'n' => some '\n'
  | 'f' => some '\x0c'
  | 'r' => some '\r'
  | '\\' => some '\\'
  | '\x27' => some '\x27'
  | '\x22' => some '\x22'
  | _ => none

/-- How a literal opens, and so how it has to be read and closed. -/
structure Opening where
  raw : Bool
  delimiter : List Char
deriving DecidableEq, Repr

namespace Opening

/-- Three quotes where three stand, else one. -/
def delimiterAt (quote : Char) (text : List Char) : List Char :=
  if [quote, quote, quote].isPrefixOf text then [quote, quote, quote] else [quote]

/-- The opening of the literal that a text begins with. -/
def find? : List Char → Option Opening
  | [] => none
  | c :: rest =>
      if isQuote c then some ⟨false, delimiterAt c (c :: rest)⟩
      else
        match rest with
        | quote :: _ =>
            if c = 'r' ∧ isQuote quote then some ⟨true, delimiterAt quote rest⟩ else none
        | [] => none

/-- The characters of the opening. -/
def text (opening : Opening) : List Char :=
  (if opening.raw then ['r'] else []) ++ opening.delimiter

/-- Quotes are what a text begins with when they are found there. -/
theorem delimiterAt_prefix {quote : Char} {rest : List Char} :
    delimiterAt quote (quote :: rest) <+: quote :: rest := by
  unfold delimiterAt
  split
  next hprefix => exact List.isPrefixOf_iff_prefix.mp hprefix
  next => exact ⟨rest, rfl⟩

theorem delimiterAt_ne_nil (quote : Char) (text : List Char) : delimiterAt quote text ≠ [] := by
  unfold delimiterAt
  split <;> simp

/-- An opening that is found has quotes, and the text begins with it. -/
theorem text_prefix_of_find? {text : List Char} {opening : Opening}
    (hfind : find? text = some opening) : opening.delimiter ≠ [] ∧ opening.text <+: text := by
  unfold find? at hfind
  split at hfind
  next => simp at hfind
  next c rest =>
    split at hfind
    next =>
      obtain rfl := Option.some.inj hfind
      exact ⟨delimiterAt_ne_nil _ _, by simpa [Opening.text] using delimiterAt_prefix⟩
    next =>
      split at hfind
      next quote more =>
        split at hfind
        next hraw =>
          obtain rfl := Option.some.inj hfind
          obtain ⟨rfl, _⟩ := hraw
          exact ⟨delimiterAt_ne_nil _ _, by simpa [Opening.text] using delimiterAt_prefix⟩
        next => simp at hfind
      next => simp at hfind

end Opening

/-- What follows the opening of a literal. -/
inductive Body where
  /-- The literal holds `data`, is spelled `text` with the closing delimiter, and ends before
  `rest`. -/
  | closed (data text rest : List Char)
  /-- The text ends before the literal does. -/
  | unclosed
  /-- The `text` ends with a backslash, and what begins the `rest` cannot follow it. -/
  | badEscape (text rest : List Char)
deriving DecidableEq, Repr

namespace Body

/-- Put a decoded character and its spelling in front. -/
def cons (c : Char) (spelling : List Char) : Body → Body
  | closed data text rest => closed (c :: data) (spelling ++ text) rest
  | unclosed => unclosed
  | badEscape text rest => badEscape (spelling ++ text) rest

/-- Read what follows an opening up to the first closing delimiter. -/
def read (opening : Opening) : List Char → Body
  | [] => unclosed
  | c :: rest =>
      if opening.delimiter.isPrefixOf (c :: rest) then
        closed [] opening.delimiter ((c :: rest).drop opening.delimiter.length)
      else if c = '\\' ∧ opening.raw = false then
        match rest with
        | [] => badEscape [c] []
        | escaped :: more =>
            match unescape? escaped with
            | some decoded => (read opening more).cons decoded [c, escaped]
            | none => badEscape [c] (escaped :: more)
      else (read opening rest).cons c [c]

/-- The spelling and the rest make up the text that was read. -/
def Covers (text : List Char) : Body → Prop
  | closed _ spelling rest => spelling ++ rest = text
  | unclosed => True
  | badEscape spelling rest => spelling ++ rest = text

theorem Covers.cons {text : List Char} {body : Body} (hbody : Covers text body) (c : Char)
    (spelling : List Char) : Covers (spelling ++ text) (body.cons c spelling) := by
  cases body <;> simp_all [Covers, Body.cons]

/-- Reading loses nothing. -/
theorem covers_read (opening : Opening) (text : List Char) : Covers text (read opening text) := by
  fun_induction read opening text with
  | case1 => trivial
  | case2 c rest hclose =>
      obtain ⟨more, hmore⟩ := List.isPrefixOf_iff_prefix.mp hclose
      simp [Covers, ← hmore]
  | case3 => simp [Covers]
  | case4 c _ escaped _ _ _ _ ih => exact ih.cons _ [c, escaped]
  | case5 => simp [Covers]
  | case6 c rest _ _ ih => exact ih.cons c [c]

end Body

end ClassLang.Scan
