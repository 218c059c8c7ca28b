import ClassLang.Report.Formatter

/-! # Sessions with a formatter

What can be asked of a formatter one request after another, and what each
request returns, writes and changes.
-/

namespace ClassLang

/-- A request to a formatter. -/
inductive Request where
  /-- Return the report of a diagnostic. -/
  | format (diagnostic : Diagnostic) (terminal : Terminal)
  /-- Write the report of a diagnostic. -/
  | emit (diagnostic : Diagnostic) (terminal : Terminal)
  /-- Write the counts. -/
  | summary (terminal : Terminal)
  /-- Return a text in the named style. -/
  | colorize (text style : String) (terminal : Terminal)
  | setMode (mode : ColorMode)
  | setMaxErrors (maxErrors : Int)

/-- What a request leads to: a text returned or a range error, and a text written. -/
structure Response where
  result : Except RangeError String
  written : String

namespace Formatter

/-- Answer a request. A report that cannot be made is not written either. -/
def answer (request : Request) (formatter : Formatter) : Response × Formatter :=
  match request with
  | .format diagnostic terminal =>
      match format terminal diagnostic formatter with
      | .ok text next => (⟨.ok text, ""⟩, next)
      | .error error next => (⟨.error error, ""⟩, next)
  | .emit diagnostic terminal =>
      match format terminal diagnostic formatter with
      | .ok text next => (⟨.ok "", text⟩, next)
      | .error error next => (⟨.error error, ""⟩, next)
  | .summary terminal => (⟨.ok "", formatter.render terminal formatter.summary⟩, formatter)
  | .colorize text style terminal =>
      (⟨.ok (formatter.colorize terminal text style), ""⟩, formatter)
  | .setMode mode => (⟨.ok "", ""⟩, { formatter with mode })
  | .setMaxErrors maxErrors => (⟨.ok "", ""⟩, { formatter with maxErrors })

end Formatter

/-- A request that has been answered, with the formatter before it and after it. -/
structure Exchange where
  request : Request
  before : Formatter
  response : Response
  after : Formatter

namespace Formatter

/-- Answer a request, and keep what it was and what it changed. -/
def exchange (formatter : Formatter) (request : Request) : Exchange :=
  let (response, next) := answer request formatter
  ⟨request, formatter, response, next⟩

/-- Answer one request after the other, whether the reports can be made or not. -/
def session (formatter : Formatter) : List Request → List Exchange
  | [] => []
  | request :: requests =>
      let exchange := formatter.exchange request
      exchange :: session exchange.after requests

end Formatter

end ClassLang
