import SqlSignature.Text.Slice
/-!
# SqlSignature.Span

The stretch of a statement text that a part of the statement was read from.
-/

namespace SqlSignature

/-- Two byte offsets of a text. -/
structure Span where
  start : Nat
  stop : Nat
  deriving Repr, DecidableEq, Inhabited

namespace Span

/-- The least span that covers two spans. -/
def join (a b : Span) : Span := ⟨min a.start b.start, max a.stop b.stop⟩

/-- The text of a span. -/
def text (span : Span) (source : String) : String := Text.slice source span.start span.stop

end Span

end SqlSignature
