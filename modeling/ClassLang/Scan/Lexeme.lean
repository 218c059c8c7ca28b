import ClassLang.Scan.StringLiteral
import ClassLang.Token.Kind
import ClassLang.Token.Word

/-! # Lexemes

A lexeme is a token without its place: a kind, what the token carries, and the
characters it is spelled with. Each reader here takes the longest lexeme of its
sort from the front of a text.
-/

namespace ClassLang.Scan

/-- A token without its place. -/
structure Lexeme where
  kind : Kind
  data : Option String
  text : List Char
deriving DecidableEq, Repr

namespace Lexeme

/-- A character that words are made of. -/
def isWordChar (c : Char) : Bool := c == '_' || c.isAlphanum

/-- The point that a text begins with, or nothing, and what follows. -/
def splitPoint : List Char → List Char × List Char
  | '.' :: rest => (['.'], rest)
  | rest => ([], rest)

@[simp] theorem splitPoint_append (text : List Char) :
    (splitPoint text).1 ++ (splitPoint text).2 = text := by
  unfold splitPoint
  split <;> rfl

/-- Digits with at most one point before, among or after them, and what follows. At least
one digit is needed; the point makes the number a floating point literal. -/
def number? (text : List Char) : Option (Lexeme × List Char) :=
  let whole := text.takeWhile Char.isDigit
  let point := splitPoint (text.dropWhile Char.isDigit)
  let fraction := point.2.takeWhile Char.isDigit
  if whole.isEmpty && fraction.isEmpty then none
  else
    let spelling := whole ++ point.1 ++ fraction
    let kind := if point.1.isEmpty then Kind.int else Kind.float
    some (⟨kind, some (String.ofList spelling), spelling⟩, point.2.dropWhile Char.isDigit)

/-- The lexeme that a whole word spells. -/
def ofWord (word : List Char) : Lexeme :=
  let name := String.ofList word
  match Keyword.ofSpelling? name with
  | some keyword => ⟨.keyword keyword, none, word⟩
  | none => ⟨if isTypename name then .typename else .name, some name, word⟩

/-- The word that a text begins with, and what follows. -/
def word? (text : List Char) : Option (Lexeme × List Char) :=
  let word := text.takeWhile isWordChar
  if word.isEmpty then none else some (ofWord word, text.dropWhile isWordChar)

/-- The longest symbol that a text begins with, and what follows. -/
def symbol? (text : List Char) : Option (Lexeme × List Char) :=
  (Symbol.longest? text).map fun symbol =>
    (⟨.symbol symbol, none, symbol.chars⟩, text.drop symbol.chars.length)

/-- The number, word or symbol that a text begins with, tried in this order. -/
def plain? (text : List Char) : Option (Lexeme × List Char) :=
  (number? text).or ((word? text).or (symbol? text))

@[simp] theorem text_ofWord (word : List Char) : (ofWord word).text = word := by
  unfold ofWord
  dsimp only
  split <;> rfl

/-- What a reader of lexemes owes: its lexeme is not empty, and nothing is lost. -/
def Splits (text : List Char) (found : Lexeme × List Char) : Prop :=
  found.1.text ≠ [] ∧ found.1.text ++ found.2 = text

theorem splits_number? {text : List Char} {found : Lexeme × List Char}
    (hfound : number? text = some found) : Splits text found := by
  unfold number? at hfound
  dsimp only at hfound
  split at hfound
  next => simp at hfound
  next hdigits =>
    obtain rfl := Option.some.inj hfound
    refine ⟨by simp_all, ?_⟩
    simp only [List.append_assoc, List.takeWhile_append_dropWhile, splitPoint_append]

theorem splits_word? {text : List Char} {found : Lexeme × List Char}
    (hfound : word? text = some found) : Splits text found := by
  unfold word? at hfound
  dsimp only at hfound
  split at hfound
  next => simp at hfound
  next hword =>
    obtain rfl := Option.some.inj hfound
    exact ⟨by simpa using hword, by simp⟩

theorem splits_symbol? {text : List Char} {found : Lexeme × List Char}
    (hfound : symbol? text = some found) : Splits text found := by
  obtain ⟨symbol, hsymbol, rfl⟩ := Option.map_eq_some_iff.mp hfound
  have hprefix := List.find?_some hsymbol
  obtain ⟨rest, rfl⟩ := List.isPrefixOf_iff_prefix.mp hprefix
  refine ⟨?_, by simp⟩
  cases symbol <;> simp [Symbol.chars]

theorem splits_plain? {text : List Char} {found : Lexeme × List Char}
    (hfound : plain? text = some found) : Splits text found := by
  rcases Option.or_eq_some_iff.mp hfound with hnumber | ⟨_, hrest⟩
  · exact splits_number? hnumber
  · rcases Option.or_eq_some_iff.mp hrest with hword | ⟨_, hsymbol⟩
    · exact splits_word? hword
    · exact splits_symbol? hsymbol

end Lexeme

end ClassLang.Scan
