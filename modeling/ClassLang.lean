import ClassLang.Grammar.Reading
import ClassLang.Proofs.Reading.Concatenation
import ClassLang.Proofs.Reading.Enclosing
import ClassLang.Proofs.Reading.LayoutIndependence
import ClassLang.Proofs.Reading.ProgramGrammar
import ClassLang.Proofs.Reading.Proper
import ClassLang.Proofs.Reading.Refusals
import ClassLang.Proofs.Reading.Starts
import ClassLang.Proofs.Rendering.RoundTrip
import ClassLang.Proofs.Stream.Tiling
import ClassLang.Report.CompileError
import ClassLang.Report.Session
import ClassLang.Tree.Outline
import ClassLang.Tree.Printing
import ClassLang.Proofs.Stream.Session
import ClassLang.Proofs.Reading.Juxtaposition
import ClassLang.Proofs.Report.Place
import ClassLang.Proofs.Decimal.Rounding
import ClassLang.Proofs.Decimal.Exact
import ClassLang.Proofs.Decimal.Written
import ClassLang.Proofs.Text.Quoted
import ClassLang.Proofs.Tree.Lines
import ClassLang.Proofs.Tree.Words
import ClassLang.Proofs.Tree.Headline
import ClassLang.Proofs.Tree.DeclarationLine
import ClassLang.Proofs.Tree.Outline
import ClassLang.Proofs.Tree.SingleLines
import ClassLang.Proofs.Tree.Alike
import ClassLang.Proofs.Tree.Printed
import ClassLang.Proofs.Tree.Levels
import ClassLang.Proofs.Reading.Printed
import ClassLang.Proofs.Reading.Nested
import ClassLang.Proofs.Syntax.Chain
import ClassLang.Proofs.Reading.Chain
import ClassLang.Proofs.Report.Account
import ClassLang.Proofs.Report.Limit
import ClassLang.Proofs.Report.Colors
import ClassLang.Proofs.Reading.Precedence
import ClassLang.Proofs.Stream.StringLiteral
import ClassLang.Proofs.Reading.Foresight
import ClassLang.Proofs.Reading.Misassignment
import ClassLang.Proofs.Source.Lines
import ClassLang.Proofs.Report.CodeFrame
import ClassLang.Proofs.Report.Underline
import ClassLang.Proofs.Source.Positions
import ClassLang.Proofs.Report.Primary
import ClassLang.Proofs.Report.Overlap
import ClassLang.Proofs.Tree.Blocks
import ClassLang.Proofs.Reading.Forward
