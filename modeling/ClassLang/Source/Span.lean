import ClassLang.Source.Basic

/-! # Spans

A span is a stretch of a source from a start up to, not including, a stop. It
may reach beyond the text on either side; only its positions then fail to
exist.
-/

namespace ClassLang

/-- A stretch of a source. -/
structure Span where
  source : Source
  start : Int
  stop : Int
  start_le_stop : start ≤ stop

namespace Span

/-- The span between two offsets, refused when they are in the wrong order. -/
def between (source : Source) (start stop : Int) : Except RangeError Span :=
  if h : start ≤ stop then .ok ⟨source, start, stop, h⟩ else .error (.span start stop)

/-- The number of characters the span asks for. -/
def length (span : Span) : Int := span.stop - span.start

/-- Whether an offset lies in the span. -/
def contains (span : Span) (offset : Int) : Bool :=
  span.start ≤ offset && offset < span.stop

/-- The place in a text of `length` characters that an index names. A negative
index counts from the end, and no index leaves the text. -/
def clampIndex (length : Nat) (index : Int) : Nat :=
  min length (if index < 0 then index + length else index).toNat

/-- The characters of the source between the places that start and stop name. -/
def text (span : Span) : List Char :=
  let first := clampIndex span.source.length span.start
  let last := clampIndex span.source.length span.stop
  (span.source.text.drop first).take (last - first)

/-- The offset of the last character, or the start of an empty span. -/
def last (span : Span) : Int := max span.start (span.stop - 1)

/-- The positions of the start and of the last character. -/
def positions (span : Span) : Except RangeError (Position × Position) := do
  let first ← span.source.positionAt span.start
  let last ← span.source.positionAt span.last
  return (first, last)

/-- Start and stop are places in the source's text. -/
def InBounds (span : Span) : Prop := 0 ≤ span.start ∧ span.stop ≤ span.source.length

end Span

end ClassLang
