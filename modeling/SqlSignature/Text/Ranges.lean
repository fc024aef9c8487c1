/-!
# SqlSignature.Text.Ranges

Classes of characters, written as ascending lists of code-point ranges.
-/

namespace SqlSignature.Text

/-- Disjoint ranges of code points in ascending order: where each begins, and how many it holds. -/
abbrev Ranges := List (Nat × Nat)

namespace Ranges

/-- Whether a code point lies in one of the ranges. The search stops at the first range that
begins after it. -/
def holds : Ranges → Nat → Bool
  | [], _ => false
  | (first, count) :: rest, n =>
    if n < first then false else decide (n < first + count) || holds rest n

/-- Whether a character lies in one of the ranges. -/
def contains (ranges : Ranges) (c : Char) : Bool := ranges.holds c.toNat

end Ranges

end SqlSignature.Text
