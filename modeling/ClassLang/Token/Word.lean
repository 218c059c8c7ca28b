import ClassLang.Text.Cased
import ClassLang.Token.Keyword

/-! # Words

A word is a keyword, the name of a type or any other name. Types are told from
variables by their spelling alone: a type that is not primitive starts with a
capital and is not written in capitals throughout.
-/

namespace ClassLang

/-- The types that are spelled in small letters. -/
def primitives : List String := ["void", "boolean", "char", "int", "float"]

/-- The word names a primitive type. -/
def isPrimitive (word : String) : Bool := primitives.contains word

/-- The word is spelled as a type: it is primitive, or its first character is a
capital and upper case changes a later one. -/
def isTypename (word : String) : Bool :=
  isPrimitive word ||
    match word.toList with
    | [] => false
    | first :: rest => Text.isCapital first && rest.any Text.changesUpper

/-- The word is a keyword. -/
def isKeyword (word : String) : Bool := (Keyword.ofSpelling? word).isSome

end ClassLang
