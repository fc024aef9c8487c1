import SqlSignature.Number.Binary64
/-!
# SqlSignature.Number.Shortest

The fewest decimal digits that read back as the same double-precision number. For 1, 2, 3, ...
digits the two neighbours of the number on that decimal grid are tried; the first grid with a
neighbour that reads back wins, of two such neighbours the nearer, and of two equally near ones the
greater. The text is always positional: no exponent, and no point after a whole number.
-/

namespace SqlSignature.Binary64

/-- A fraction of natural numbers. -/
structure Fraction where
  num : Nat
  den : Nat

/-- Whether one fraction is less than another. -/
def Fraction.less (a b : Fraction) : Bool := decide (a.num * b.den < b.num * a.den)

/-- The reals that read back as a number: those between two bounds, and the bounds too if
`closed`. -/
structure Interval where
  low : Fraction
  high : Fraction
  closed : Bool

/-- Whether a fraction lies in an interval. -/
def Interval.holds (i : Interval) (x : Fraction) : Bool :=
  if i.closed then !x.less i.low && !i.high.less x else i.low.less x && x.less i.high

/-- The fraction `m * 2 ^ q`. -/
def binaryFraction (m : Nat) (q : Int) : Fraction :=
  if q < 0 then ⟨m, Nat.pow 2 (-q).toNat⟩ else ⟨m * Nat.pow 2 q.toNat, 1⟩

/-- The fraction `n * 10 ^ k`. -/
def decimalFraction (n : Nat) (k : Int) : Fraction :=
  if k < 0 then ⟨n, Nat.pow 10 (-k).toNat⟩ else ⟨n * Nat.pow 10 k.toNat, 1⟩

/-- The reals that read back as `m * 2 ^ q`: half a unit to both sides, but only a quarter below a
power of two, where the units get smaller. -/
def readBack (m : Nat) (q : Int) : Interval :=
  let below := if m = Nat.pow 2 52 ∧ q > -1074 then 4 * m - 1 else 4 * m - 2
  { low := binaryFraction below (q - 2), high := binaryFraction (4 * m + 2) (q - 2)
    closed := m % 2 == 0 }

/-- The number of digits before the decimal point of a fraction; zero or negative below one tenth.
`fuel` bounds the search downwards. -/
def magnitudeFrom (x : Fraction) : (fuel : Nat) → Int → Int
  | 0, k => k
  | fuel + 1, k => if x.less (decimalFraction 1 (k - 1)) then magnitudeFrom x fuel (k - 1) else k

/-- The least `k` with `x < 10 ^ k`, for a fraction between the smallest and the largest number. -/
def magnitude (x : Fraction) : Int := magnitudeFrom x 640 310

/-- The nearest of the two neighbours of `x` on the grid `10 ^ k` that lie in an interval. -/
def neighbour? (i : Interval) (x : Fraction) (k : Int) : Option Nat :=
  let unit := decimalFraction 1 k
  let floor := (x.num * unit.den) / (x.den * unit.num)
  let lower := i.holds (decimalFraction floor k)
  let upper := i.holds (decimalFraction (floor + 1) k)
  let rest := 2 * ((x.num * unit.den) % (x.den * unit.num))
  if lower && upper then
    some (if rest < x.den * unit.num then floor else floor + 1)
  else if lower then some floor
  else if upper then some (floor + 1)
  else none

/-- Tries grids of one digit more each, starting with the grid `10 ^ k`. -/
def shortestFrom (i : Interval) (x : Fraction) : (fuel : Nat) → Int → Nat × Int
  | 0, k => (0, k)
  | fuel + 1, k =>
    match neighbour? i x k with
    | some n => (n, k)
    | none => shortestFrom i x fuel (k - 1)

/-- The digits and the exponent of the shortest decimal of a finite number that is not zero.
Seventeen digits are always enough. -/
def shortest (x : Binary64) : Nat × Int :=
  let (m, q) := x.decode
  let value := binaryFraction m q
  shortestFrom (readBack m q) value 18 (magnitude value - 1)

/-- Text without the zeros at its end. -/
def dropFinalZeros (ds : List Char) : List Char := (ds.reverse.dropWhile (· == '0')).reverse

/-- The decimal `n * 10 ^ k` in positional notation. -/
def positional (n : Nat) (k : Int) : String :=
  let ds := Nat.toDigits 10 n
  if 0 ≤ k then String.ofList (ds ++ List.replicate k.toNat '0')
  else
    let places := (-k).toNat
    let padded := List.replicate (places + 1 - ds.length) '0' ++ ds
    let whole := padded.take (padded.length - places)
    let fraction := dropFinalZeros (padded.drop (padded.length - places))
    String.ofList (if fraction.isEmpty then whole else whole ++ '.' :: fraction)

/-- The number as text. -/
def render (x : Binary64) : String :=
  if x.isInfinite then "inf"
  else if x.bits == 0 then "0"
  else
    let (n, k) := x.shortest
    positional n k

end SqlSignature.Binary64
