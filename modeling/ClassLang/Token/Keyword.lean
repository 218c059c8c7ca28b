/-! # Keywords

The words that have a meaning of their own and can name nothing.
-/

namespace ClassLang

/-- The keywords. -/
inductive Keyword where
  | «class» | interface | «final» | «static» | native | «private» | «public» | «this»
  | abstract | «return» | «for» | «if» | «else» | «while» | «break» | «continue» | «true»
  | «false» | null | var | const | goto | package | «import»
deriving DecidableEq, Repr

namespace Keyword

/-- All keywords. -/
def all : List Keyword :=
  [.class, .interface, .final, .static, .native, .private, .public, .this,
   .abstract, .return, .for, .if, .else, .while, .break, .continue, .true,
   .false, .null, .var, .const, .goto, .package, .import]

/-- How a keyword is written. -/
def spelling : Keyword → String
  | .class => "class"
  | .interface => "interface"
  | .final => "final"
  | .static => "static"
  | .native => "native"
  | .private => "private"
  | .public => "public"
  | .this => "this"
  | .abstract => "abstract"
  | .return => "return"
  | .for => "for"
  | .if => "if"
  | .else => "else"
  | .while => "while"
  | .break => "break"
  | .continue => "continue"
  | .true => "true"
  | .false => "false"
  | .null => "null"
  | .var => "var"
  | .const => "const"
  | .goto => "goto"
  | .package => "package"
  | .import => "import"

/-- The keyword with the given spelling. -/
def ofSpelling? (word : String) : Option Keyword := all.find? (·.spelling = word)

theorem spelling_of_ofSpelling? {word : String} {keyword : Keyword}
    (hkeyword : ofSpelling? word = some keyword) : keyword.spelling = word := by
  simpa using List.find?_some hkeyword

theorem mem_all (keyword : Keyword) : keyword ∈ all := by
  cases keyword <;> decide

end Keyword

end ClassLang
