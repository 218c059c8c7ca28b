import ClassLang.Report.Diagnostic
import ClassLang.Report.Wording

/-! # Compile errors

A compile error joins a diagnostic to the tokens it is about. Its message is
the diagnostic's message and, for each token, the line the token stands on.
-/

namespace ClassLang

/-- The stage of reading at which a program is refused. -/
inductive Stage where
  | lexing | parsing
  /-- No stage in particular. -/
  | compiling
deriving DecidableEq, Repr

/-- The refusal of a program. -/
structure CompileError where
  stage : Stage
  diagnostic : Diagnostic
  tokens : List PlacedToken

namespace CompileError

/-- The text of the refusal: its message, then a block for each token. -/
def message (error : CompileError) : String :=
  error.diagnostic.message ++ String.join (error.tokens.map (·.locationMessage))

/-- A label with the same remark on each token, the first one primary. -/
def tokenLabels (text : Option String) : List PlacedToken → List Label
  | [] => []
  | first :: rest => ⟨first.span, text, true⟩ :: rest.map fun placed => ⟨placed.span, text, false⟩

/-- The refusal about the given tokens. -/
def ofTokens (stage : Stage) (code message : String) (label help : Option String)
    (tokens : List PlacedToken) : CompileError :=
  ⟨stage, .make code .error message (tokenLabels label tokens) [] help, tokens⟩

/-- The refusal about one token in the words for its cause. -/
def ofWording (stage : Stage) (wording : Wording) (placed : PlacedToken) : CompileError :=
  ofTokens stage wording.code wording.message (some wording.label) wording.help [placed]

end CompileError

/-- The refusal that a lexical failure in a source leads to. -/
def LexicalError.report (error : LexicalError) (source : Source) :
    Except RangeError CompileError :=
  .ofWording .lexing error.cause.wording <$> PlacedToken.place source error.token

/-- The refusal that a grammatical failure in a source leads to. -/
def GrammarError.report (error : GrammarError) (source : Source) :
    Except RangeError CompileError :=
  .ofWording .parsing (error.cause.wording error.token) <$> PlacedToken.place source error.token

end ClassLang
