import ClassLang.Stream.Upcoming

/-! # Token streams

A stream shows one token, scanned in advance, and hands it out when the scan
for the token after it succeeds. A failed scan leaves the shown token where it
is; only the place where scanning will go on may have moved.
-/

namespace ClassLang

/-- A text being read token by token. -/
structure TokenStream where
  /-- The token that is handed out next. -/
  buffered : Token
  /-- How far the text has been scanned. -/
  offset : Nat
  /-- What the rest of the text has in store. -/
  upcoming : Upcoming
deriving DecidableEq, Repr

namespace TokenStream

/-- No token is left but the end of the text. -/
def atEnd (stream : TokenStream) : Bool := stream.buffered.kind = .endOfText

/-- The number of tokens that can still be handed out before the end of the text. -/
def remaining (stream : TokenStream) : Nat :=
  if stream.atEnd then 0 else stream.upcoming.length + 1

/-- Scan one token from what a text has in store: the token, how far the scan went, and
what comes after it. A failed scan says where and what comes next, if that has changed. -/
def scan : Upcoming → Except (LexicalError × Nat × Upcoming) TokenStream
  | .endOfText offset => .ok ⟨.endOfText offset, offset, .endOfText offset⟩
  | .token token next => .ok ⟨token, token.stop.toNat, next⟩
  | .failure error offset next => .error (error, offset, next)
  | .stuck error offset => .error (error, offset, .stuck error offset)

/-- Begin to read a source, with its first token scanned. -/
def ofSource (source : Source) : Except LexicalError TokenStream :=
  match scan (.ofText 0 source.text) with
  | .ok stream => .ok stream
  | .error (error, _) => .error error

/-- Hand out the buffered token and scan the next one. The end of the text is handed out
again and again. -/
def advance : EStateM LexicalError TokenStream Token := fun stream =>
  if stream.atEnd then .ok stream.buffered stream
  else
    match scan stream.upcoming with
    | .ok next => .ok stream.buffered next
    | .error (error, offset, upcoming) => .error error ⟨stream.buffered, offset, upcoming⟩

theorem remaining_advance {stream next : TokenStream} {token : Token}
    (hend : stream.atEnd = false) (hadvance : advance stream = .ok token next) :
    next.remaining < stream.remaining := by
  unfold advance at hadvance
  simp only [hend, Bool.false_eq_true, if_false] at hadvance
  cases hupcoming : stream.upcoming with
  | endOfText offset =>
      grind [scan, remaining, atEnd, Token.endOfText, Upcoming.length]
  | token t rest => grind [scan, remaining, Upcoming.length]
  | failure e offset rest => simp [hupcoming, scan] at hadvance
  | stuck e offset => simp [hupcoming, scan] at hadvance

/-- Hand out all tokens that are left, the end of the text last. -/
def tokenize : EStateM LexicalError TokenStream (List Token) := fun stream =>
  if _hend : stream.atEnd then .ok [stream.buffered] stream
  else
    match _hadvance : advance stream with
    | .error error next => .error error next
    | .ok token next =>
        match tokenize next with
        | .error error last => .error error last
        | .ok tokens last => .ok (token :: tokens) last
termination_by stream => stream.remaining
decreasing_by exact remaining_advance (by simpa using _hend) _hadvance

/-- All tokens of a source, the end of the text last. -/
def tokens (source : Source) : Except LexicalError (List Token) := do
  let stream ← ofSource source
  match tokenize stream with
  | .ok tokens _ => .ok tokens
  | .error error _ => .error error

end TokenStream

end ClassLang
