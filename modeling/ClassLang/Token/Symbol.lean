/-! # Symbols

Operators and punctuation, with the ranks of the binary operators.
-/

namespace ClassLang

/-- The symbols. -/
inductive Symbol where
  | parenOpen | parenClose | bracketOpen | bracketClose | braceOpen | braceClose | comma
  | dot | ellipsis | semicolon | hash | dollar | assign | plus | minus | star | slash
  | percent | increment | decrement | and | or | question | colon | equal | notEqual | less
  | greater | lessEqual | greaterEqual | not | plusAssign | minusAssign | starAssign
  | slashAssign | percentAssign
deriving DecidableEq, Repr

namespace Symbol

/-- The characters of a symbol. -/
def chars : Symbol → List Char
  | .parenOpen => ['(']
  | .parenClose => [')']
  | .bracketOpen => ['[']
  | .bracketClose => [']']
  | .braceOpen => ['{']
  | .braceClose => ['}']
  | .comma => [',']
  | .dot => ['.']
  | .ellipsis => ['.', '.', '.']
  | .semicolon => [';']
  | .hash => ['#']
  | .dollar => ['$']
  | .assign => ['=']
  | .plus => ['+']
  | .minus => ['-']
  | .star => ['*']
  | .slash => ['/']
  | .percent => ['%']
  | .increment => ['+', '+']
  | .decrement => ['-', '-']
  | .and => ['&', '&']
  | .or => ['|', '|']
  | .question => ['?']
  | .colon => [':']
  | .equal => ['=', '=']
  | .notEqual => ['!', '=']
  | .less => ['<']
  | .greater => ['>']
  | .lessEqual => ['<', '=']
  | .greaterEqual => ['>', '=']
  | .not => ['!']
  | .plusAssign => ['+', '=']
  | .minusAssign => ['-', '=']
  | .starAssign => ['*', '=']
  | .slashAssign => ['/', '=']
  | .percentAssign => ['%', '=']

/-- How a symbol is written. -/
def spelling (symbol : Symbol) : String := String.ofList symbol.chars

/-- All symbols, longer ones before shorter ones. -/
def longestFirst : List Symbol :=
  [.ellipsis, .increment, .decrement, .and, .or, .equal, .notEqual, .lessEqual,
   .greaterEqual, .plusAssign, .minusAssign, .starAssign, .slashAssign, .percentAssign,
   .parenOpen, .parenClose, .bracketOpen, .bracketClose, .braceOpen, .braceClose, .comma,
   .dot, .semicolon, .hash, .dollar, .assign, .plus, .minus, .star, .slash, .percent,
   .question, .colon, .less, .greater, .not]

theorem mem_longestFirst (symbol : Symbol) : symbol ∈ longestFirst := by
  cases symbol <;> decide

/-- A symbol before another in the list is at least as long. -/
theorem longestFirst_sorted :
    longestFirst.Pairwise fun earlier later => later.chars.length ≤ earlier.chars.length := by
  decide

/-- The longest symbol that a text begins with. -/
def longest? (text : List Char) : Option Symbol :=
  longestFirst.find? fun symbol => symbol.chars.isPrefixOf text

/-- The symbol with the given spelling. -/
def ofSpelling? (word : String) : Option Symbol := longestFirst.find? (·.spelling = word)

/-- How tightly a binary operator binds its operands. -/
def precedence? : Symbol → Option Nat
  | .or => some 1
  | .and => some 2
  | .equal | .notEqual => some 3
  | .less | .lessEqual | .greater | .greaterEqual => some 4
  | .plus | .minus => some 5
  | .star | .slash | .percent => some 6
  | _ => none

/-- The operators that assign: plain assignment and those that first compute with the target. -/
def assignments : List Symbol :=
  [.assign, .plusAssign, .minusAssign, .starAssign, .slashAssign, .percentAssign]

/-- The operators that stand before their operand. -/
def leading : List Symbol := [.not, .minus]

/-- The operators that stand after their operand. -/
def trailing : List Symbol := [.increment, .decrement]

end Symbol

end ClassLang
