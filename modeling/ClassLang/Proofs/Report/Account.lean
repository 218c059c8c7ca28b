import ClassLang.Proofs.Report.Answer

/-! # What a formatter keeps count of

A formatter may be asked anything in any order, with the limit and the colors changed on the way and
with reports that cannot be made. Still its counts are the numbers of errors and warnings that were
handed to it, and what it makes of the next diagnostic depends on these and on the settings in force
only.
-/

namespace ClassLang

/-! ## What requests hand over and set -/

namespace Request

/-- The diagnostic that a request hands to the formatter, with the terminal it is for. -/
def handed? : Request → Option (Diagnostic × Terminal)
  | .format diagnostic terminal | .emit diagnostic terminal => some (diagnostic, terminal)
  | .summary _ | .colorize _ _ _ | .setMode _ | .setMaxErrors _ => none

/-- The mode that a request sets. -/
def mode? : Request → Option ColorMode
  | .setMode mode => some mode
  | _ => none

/-- The limit that a request sets. -/
def maxErrors? : Request → Option Int
  | .setMaxErrors maxErrors => some maxErrors
  | _ => none

/-- How many diagnostics of the given severity the requests hand over. -/
def number (severity : Severity) (requests : List Request) : Nat :=
  (requests.filterMap handed?).countP (·.1.severity = severity)

/-- What is in force after the requests: the last that one of them has set, if one has. -/
def last {α : Type} (set? : Request → Option α) (initial : α) (requests : List Request) : α :=
  (requests.filterMap set?).getLast?.getD initial

variable (request : Request) (requests : List Request)

theorem number_append (severity : Severity) (front back : List Request) :
    number severity (front ++ back) = number severity front + number severity back := by
  rw [number, List.filterMap_append, List.countP_append]
  rfl

theorem number_handed {request : Request} {diagnostic : Diagnostic} {terminal : Terminal}
    (hhanded : request.handed? = some (diagnostic, terminal)) (severity : Severity) :
    number severity [request] = if diagnostic.severity = severity then 1 else 0 := by
  simp [number, hhanded, List.countP_singleton]

theorem number_cons (severity : Severity) :
    number severity (request :: requests) =
      number severity [request] + number severity requests :=
  number_append severity [request] requests

theorem last_cons {α : Type} (set? : Request → Option α) (initial : α) :
    last set? initial (request :: requests) = last set? ((set? request).getD initial) requests := by
  rw [last, List.filterMap_cons, last]
  cases set? request with
  | none => rfl
  | some next => rw [List.getLast?_cons]; rfl

end Request

/-- What came of handing a diagnostic over, whether it was returned or written. -/
def Exchange.yielded (exchange : Exchange) : Except RangeError String :=
  match exchange.request, exchange.response.result with
  | .emit _ _, .ok _ => .ok exchange.response.written
  | _, result => result

namespace Formatter

/-- A number in words: its digits and what there are so many of, in the plural unless it is one. -/
def amount (number : Nat) (one many : String) : String :=
  String.ofList (Nat.toDigits 10 number) ++ " " ++ if number = 1 then one else many

/-- A text in the color of the given code, which is ended behind the text. -/
def dyed (colors : Bool) (code text : String) : String :=
  if colors then "\x1b[" ++ code ++ "m" ++ text ++ "\x1b[0m" else text

/-- The text of a summary: the counts that are not zero, the errors in bright red and the warnings
in bright yellow, and nothing where both are zero. -/
def summaryText (colors : Bool) (errors warnings : Nat) : String :=
  let errorCount := dyed colors "91" (amount errors "error" "errors")
  let warningCount := dyed colors "93" (amount warnings "warning" "warnings")
  match errors, warnings with
  | 0, 0 => ""
  | _ + 1, 0 => "\n" ++ errorCount ++ " generated\n"
  | 0, _ + 1 => "\n" ++ warningCount ++ " generated\n"
  | _ + 1, _ + 1 => "\n" ++ errorCount ++ ", " ++ warningCount ++ " generated\n"

example : summaryText false 1 12 = "\n1 error, 12 warnings generated\n" := by decide

/-- What holds of all that a formatter with the given settings is asked. -/
structure Accounts (mode : ColorMode) (maxErrors : Int) (exchanges : List Exchange) : Prop where
  /-- The counts are the numbers of diagnostics handed over, whatever came of them. -/
  counts : ∀ earlier exchange later, exchanges = earlier ++ exchange :: later →
    exchange.before.errors = Request.number .error (earlier.map (·.request)) ∧
    exchange.before.warnings = Request.number .warning (earlier.map (·.request)) ∧
    exchange.after.errors =
      Request.number .error ((earlier ++ [exchange]).map (·.request)) ∧
    exchange.after.warnings =
      Request.number .warning ((earlier ++ [exchange]).map (·.request))
  settings : ∀ earlier exchange later, exchanges = earlier ++ exchange :: later →
    exchange.before.mode = Request.last Request.mode? mode (earlier.map (·.request)) ∧
    exchange.before.maxErrors = Request.last Request.maxErrors? maxErrors (earlier.map (·.request))
  /-- The notice takes the place of a report just when there are too many errors, this one
  included. -/
  notice : ∀ exchange ∈ exchanges, ∀ diagnostic terminal,
    exchange.request.handed? = some (diagnostic, terminal) →
    (exchange.yielded = .ok (exchange.before.render terminal limitNotice) ↔
      exchange.before.maxErrors < exchange.after.errors)
  report : ∀ exchange ∈ exchanges, ∀ diagnostic terminal,
    exchange.request.handed? = some (diagnostic, terminal) →
    ¬ exchange.before.maxErrors < exchange.after.errors →
    exchange.yielded = exchange.before.render terminal <$> diagnostic.report
  /-- What fails writes nothing. -/
  failed : ∀ exchange ∈ exchanges, ∀ error,
    exchange.response.result = .error error → exchange.response.written = ""
  /-- Nothing is written but reports and summaries. -/
  quiet : ∀ exchange ∈ exchanges,
    (∀ diagnostic terminal, exchange.request ≠ .emit diagnostic terminal) →
    (∀ terminal, exchange.request ≠ .summary terminal) → exchange.response.written = ""
  summary : ∀ exchange ∈ exchanges, ∀ terminal, exchange.request = .summary terminal →
    exchange.response = ⟨.ok "", summaryText (exchange.before.mode.usesColors terminal)
      exchange.before.errors exchange.before.warnings⟩

variable {formatter : Formatter} {request : Request} {requests : List Request}
  {exchange : Exchange} {earlier later : List Exchange}

/-! ## One exchange -/

@[simp] theorem exchange_request (formatter : Formatter) (request : Request) :
    (formatter.exchange request).request = request := rfl

@[simp] theorem exchange_before (formatter : Formatter) (request : Request) :
    (formatter.exchange request).before = formatter := rfl

/-- A request counts what it hands over and sets what it sets, and nothing else. -/
theorem exchange_after (formatter : Formatter) (request : Request) :
    (formatter.exchange request).after =
      ⟨request.mode?.getD formatter.mode, request.maxErrors?.getD formatter.maxErrors,
        formatter.errors + Request.number .error [request],
        formatter.warnings + Request.number .warning [request]⟩ := by
  cases request with
  | format diagnostic terminal =>
      rw [exchange_format, Request.number_handed rfl, Request.number_handed rfl]
      exact count_eq formatter diagnostic.severity
  | emit diagnostic terminal =>
      rw [exchange_emit, Request.number_handed rfl, Request.number_handed rfl]
      exact count_eq formatter diagnostic.severity
  | summary terminal => rfl
  | colorize text style terminal => rfl
  | setMode mode => rfl
  | setMaxErrors maxErrors => rfl

/-- Of what is handed over the formatter makes what it can, having counted it. -/
theorem yielded_exchange (formatter : Formatter) {diagnostic : Diagnostic} {terminal : Terminal}
    (hhanded : request.handed? = some (diagnostic, terminal)) :
    (formatter.exchange request).after = count diagnostic.severity formatter ∧
      (formatter.exchange request).yielded = formatter.made diagnostic terminal := by
  cases request with
  | format shown stream =>
      cases hhanded
      rw [exchange_format]
      exact ⟨rfl, rfl⟩
  | emit shown stream =>
      cases hhanded
      rw [exchange_emit]
      refine ⟨rfl, ?_⟩
      cases hmade : formatter.made diagnostic terminal <;> simp [Exchange.yielded, Response.writing]
  | summary _ => cases hhanded
  | colorize _ _ _ => cases hhanded
  | setMode _ => cases hhanded
  | setMaxErrors _ => cases hhanded

theorem written_of_error {error : RangeError}
    (herror : (formatter.exchange request).response.result = .error error) :
    (formatter.exchange request).response.written = "" := by
  cases request with
  | format diagnostic terminal => rw [exchange_format]; rfl
  | emit diagnostic terminal =>
      rw [exchange_emit] at herror ⊢
      cases hmade : formatter.made diagnostic terminal with
      | ok text => rw [hmade] at herror; cases herror
      | error error => rfl
  | summary terminal => cases herror
  | colorize text style terminal => cases herror
  | setMode mode => cases herror
  | setMaxErrors maxErrors => cases herror

theorem written_of_other (hemit : ∀ diagnostic terminal, request ≠ .emit diagnostic terminal)
    (hsummary : ∀ terminal, request ≠ .summary terminal) :
    (formatter.exchange request).response.written = "" := by
  cases request with
  | format diagnostic terminal => rw [exchange_format]; rfl
  | emit diagnostic terminal => exact absurd rfl (hemit diagnostic terminal)
  | summary terminal => exact absurd rfl (hsummary terminal)
  | colorize text style terminal => rfl
  | setMode mode => rfl
  | setMaxErrors maxErrors => rfl

theorem counted_eq (number : Nat) (thing : String) :
    counted number thing = amount number thing (thing ++ "s") := by
  have hsingular : s!"{number} {thing}" =
      String.ofList (Nat.toDigits 10 number) ++ " " ++ thing := rfl
  rw [counted, hsingular, amount]
  split <;> simp [String.append_assoc]

theorem render_summary (formatter : Formatter) (terminal : Terminal) :
    formatter.render terminal formatter.summary =
      summaryText (formatter.mode.usesColors terminal) formatter.errors formatter.warnings := by
  have herrors : (Style.brightRed.paint (counted formatter.errors "error")).render
      (formatter.mode.usesColors terminal) =
        dyed (formatter.mode.usesColors terminal) "91"
          (amount formatter.errors "error" "errors") := by
    rw [counted_eq]
    rfl
  have hwarnings : (Style.brightYellow.paint (counted formatter.warnings "warning")).render
      (formatter.mode.usesColors terminal) =
        dyed (formatter.mode.usesColors terminal) "93"
          (amount formatter.warnings "warning" "warnings") := by
    rw [counted_eq]
    rfl
  unfold render summary summaryText
  rw [← herrors, ← hwarnings]
  cases formatter.errors <;> cases formatter.warnings <;>
    simp [Styled.render, Piece.render, String.append_assoc]

/-! ## A session -/

/-- The formatter that requests lead to. -/
def leaves (formatter : Formatter) : List Request → Formatter
  | [] => formatter
  | request :: requests => leaves (formatter.exchange request).after requests

theorem leaves_eq (formatter : Formatter) (requests : List Request) :
    formatter.leaves requests =
      ⟨Request.last Request.mode? formatter.mode requests,
        Request.last Request.maxErrors? formatter.maxErrors requests,
        formatter.errors + Request.number .error requests,
        formatter.warnings + Request.number .warning requests⟩ := by
  induction requests generalizing formatter with
  | nil => rfl
  | cons request requests ih =>
      rw [leaves, ih, exchange_after, Request.last_cons, Request.last_cons,
        Request.number_cons request requests, Request.number_cons request requests, Nat.add_assoc,
        Nat.add_assoc]

theorem map_request_session (formatter : Formatter) (requests : List Request) :
    (formatter.session requests).map (·.request) = requests := by
  induction requests generalizing formatter with
  | nil => rfl
  | cons request requests ih =>
      rw [session, List.map_cons, ih, exchange_request]

/-- Each exchange of a session is one with the formatter that the requests before it lead to. -/
theorem session_split (hsession : formatter.session requests = earlier ++ exchange :: later) :
    ∃ request, exchange = (formatter.leaves (earlier.map (·.request))).exchange request := by
  induction requests generalizing formatter earlier with
  | nil => cases earlier <;> cases hsession
  | cons request requests ih =>
      cases earlier with
      | nil =>
          obtain ⟨rfl, -⟩ := List.cons.inj hsession
          exact ⟨request, rfl⟩
      | cons first earlier =>
          obtain ⟨rfl, hrest⟩ := List.cons.inj hsession
          obtain ⟨next, hnext⟩ := ih hrest
          exact ⟨next, hnext⟩

theorem exists_of_mem_session (hmem : exchange ∈ formatter.session requests) :
    ∃ (reached : Formatter) (request : Request), exchange = reached.exchange request := by
  obtain ⟨earlier, later, hsession⟩ := List.append_of_mem hmem
  exact ⟨_, session_split hsession⟩

end Formatter

end ClassLang
