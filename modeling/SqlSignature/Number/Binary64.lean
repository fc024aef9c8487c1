/-!
# SqlSignature.Number.Binary64

Double-precision numbers that are not negative, as the bits of their interchange format, and the
number nearest to a decimal. All steps are exact: the decimal is a fraction of natural numbers, the
quotient is rounded to the nearest, and a tie goes to the even neighbour.
-/

namespace SqlSignature

/-- A double-precision number. The sign bit is never set. -/
structure Binary64 where
  bits : UInt64
  deriving Repr, DecidableEq

namespace Binary64

/-- Positive infinity. -/
def infinity : Binary64 := ⟨0x7ff0000000000000⟩

/-- The number zero. -/
def zero : Binary64 := ⟨0⟩

/-- The quotient of two natural numbers, rounded to the nearest, ties to even. -/
def roundQuotient (num den : Nat) : Nat :=
  let quotient := num / den
  let rest := 2 * (num % den)
  if rest < den then quotient
  else if den < rest then quotient + 1
  else if quotient % 2 = 0 then quotient else quotient + 1

/-- The fraction `num / den` divided by `2 ^ exponent`, as a fraction. -/
def scale (num den : Nat) (exponent : Int) : Nat × Nat :=
  if exponent < 0 then (num * Nat.pow 2 (-exponent).toNat, den)
  else (num, den * Nat.pow 2 exponent.toNat)

/-- The exponent `q` of the unit in the last place of a fraction: the quotient by `2 ^ q` has 53
bits, unless the fraction is too small for that. -/
def unitExponent (num den : Nat) : Int :=
  let guess : Int := max ((num.log2 : Int) - den.log2 - 53) (-1074)
  let (n, d) := scale num den guess
  if Nat.pow 2 53 ≤ n / d then guess + 1 else guess

/-- The number nearest to a fraction that is not zero. The exponent field counts from the smallest
unit, so a rounded quotient of 54 bits carries into it. -/
def ofFraction (num den : Nat) : Binary64 :=
  let exponent := unitExponent num den
  let (n, d) := scale num den exponent
  let bits := (exponent + 1074).toNat * Nat.pow 2 52 + roundQuotient n d
  if bits < 0x7ff * Nat.pow 2 52 then ⟨UInt64.ofNat bits⟩ else infinity

/-- The number of decimal digits of a natural number. -/
def digitCount (n : Nat) : Nat := (Nat.toDigits 10 n).length

/-- The number nearest to `digits * 10 ^ exponent`. Decimals that are far too large or far too
small are told by their number of digits. -/
def ofDecimal (digits : Nat) (exponent : Int) : Binary64 :=
  let magnitude : Int := digitCount digits + exponent
  if digits = 0 then zero
  else if magnitude > 310 then infinity
  else if magnitude < -330 then zero
  else if exponent < 0 then ofFraction digits (Nat.pow 10 (-exponent).toNat)
  else ofFraction (digits * Nat.pow 10 exponent.toNat) 1

/-- Whether the number is infinite. -/
def isInfinite (x : Binary64) : Bool := x.bits == infinity.bits

/-- The whole number `m` and the exponent `q` with `x = m * 2 ^ q`, for a finite number. -/
def decode (x : Binary64) : Nat × Int :=
  let field : Nat := x.bits.toNat / Nat.pow 2 52
  let fraction : Nat := x.bits.toNat % Nat.pow 2 52
  if field = 0 then (fraction, -1074) else (Nat.pow 2 52 + fraction, Int.ofNat field - 1075)

end Binary64

end SqlSignature
