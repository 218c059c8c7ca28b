import ClassLang.Grammar.Failure
import ClassLang.Text.Quoted

/-! # The wording of failures

Every cause of a failure has a code, a message, a remark for the place it is
about and, with one exception, a hint. Codes of lexical failures are in the
thousands, those of grammatical failures in the two thousands.
-/

namespace ClassLang

/-- What is said about a failure. -/
structure Wording where
  code : String
  message : String
  label : String
  help : Option String
deriving DecidableEq, Repr

/-- What is said about a lexical failure. -/
def LexicalCause.wording : LexicalCause → Wording
  | .unterminatedComment =>
      ⟨"KAV1001", "Unterminated multiline comment", "comment starts here",
        some "close the comment with '*/'"⟩
  | .unrecognizedEscape =>
      ⟨"KAV1002", "Unrecognized string escape", "unknown escape character",
        some "valid escapes are \\t \\n \\f \\r \\\\ \\' \\\", or use a raw string r\"...\""⟩
  | .unrecognizedToken =>
      ⟨"KAV1003", "Unrecognized token", "unexpected character",
        some "check for typos or unsupported characters"⟩
  | .unterminatedString =>
      ⟨"KAV1004", "Unterminated string literal", "string starts here",
        some "add the closing quote to terminate the string"⟩

/-- What is said about a grammatical failure at a token. -/
def GrammarCause.wording (token : Token) : GrammarCause → Wording
  | .expectedToken expected =>
      ⟨"KAV2001", s!"Expected {expected.spelling} but got {token.describe}",
        s!"expected {expected.spelling} here", none⟩
  | .expectedDeclaration =>
      ⟨"KAV2002", "Expected class or interface", "expected 'class' or 'interface' here",
        some "only classes and interfaces may appear at the top level"⟩
  | .expectedExpression =>
      ⟨"KAV2003", "Expected expression", "expected expression here",
        some "add a valid expression (name, literal, call, or field access)"⟩
  | .privateInterfaceMethod =>
      ⟨"KAV2004", "interface methods can't be private", "declared private here",
        some "remove 'private' or declare the method 'public'"⟩
  | .invalidAssignmentTarget =>
      ⟨"KAV2005", "Invalid assignment target", "cannot assign to this expression",
        some "only variables, fields and static fields can be assigned to"⟩
  | .nestingTooDeep =>
      ⟨"KAV2006", "Nesting too deep", "nesting limit reached here",
        some "split the expression or block into smaller pieces"⟩

/-- What is said about an integer literal with too many digits. -/
def Failure.integerTooLongMessage (digits : Nat) : String :=
  s!"Exceeds the limit ({Failure.integerDigits} digits) for integer string conversion: " ++
    s!"value has {digits} digits; use sys.set_int_max_str_digits() to increase the limit"

/-- What is said where a token has no precedence: its kind, in quotes. -/
def Failure.noPrecedenceMessage (kind : Kind) : String :=
  String.ofList (Text.quoted kind.spelling.toList)

end ClassLang
