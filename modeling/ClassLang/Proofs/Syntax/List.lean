import ClassLang.Token.Basic

/-! # Lists of phrases

Phrases of one sort in a row, with commas between them, or in parentheses with
commas between them.
-/

namespace ClassLang.Syntax

variable {α : Type}

/-- Items one after the other. -/
inductive Sequence (item : List Token → α → Prop) : List Token → List α → Prop
  | nil : Sequence item [] []
  | cons {ts value us values} : item ts value → Sequence item us values →
      Sequence item (ts ++ us) (value :: values)

/-- One or more items with commas between. -/
inductive CommaSeparated (item : List Token → α → Prop) : List Token → List α → Prop
  | single {ts value} : item ts value → CommaSeparated item ts [value]
  | more {ts value comma us values} : item ts value → comma.kind = .symbol .comma →
      CommaSeparated item us values → CommaSeparated item (ts ++ comma :: us) (value :: values)

/-- Any number of items in parentheses, with commas between. -/
inductive Parenthesized (item : List Token → α → Prop) : List Token → List α → Prop
  | empty {opening closing} : opening.kind = .symbol .parenOpen →
      closing.kind = .symbol .parenClose → Parenthesized item [opening, closing] []
  | items {opening ts values closing} : opening.kind = .symbol .parenOpen →
      CommaSeparated item ts values → closing.kind = .symbol .parenClose →
      Parenthesized item (opening :: ts ++ [closing]) values

end ClassLang.Syntax
