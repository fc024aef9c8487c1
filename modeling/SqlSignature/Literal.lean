import SqlSignature.Number.Shortest
import SqlSignature.SqlType
/-!
# SqlSignature.Literal

The literals of expressions, the types they have on their own, and how a number is read: with an
exponent it is a float, with a point a decimal, else a whole number as long as it has 63 bits.
-/

namespace SqlSignature

/-- A literal. -/
inductive Literal where
  | text (value : String)
  /-- A whole number below `2 ^ 63`. -/
  | int (value : Nat)
  | decimal (value : Binary64)
  | float (value : Binary64)
  | bool (value : Bool)
  | null
  deriving Repr, DecidableEq

namespace Literal

/-- The type of a literal on its own. -/
def naturalType : Literal → SqlType
  | text _ => .varchar
  | int value => if value < Nat.pow 2 31 then .int else .bigInt
  | decimal _ => .decimal
  | float _ => .double
  | bool _ => .tinyInt
  | null => .null

def isNull : Literal → Bool
  | null => true
  | _ => false

/-- A literal as text, after a letter for its kind. -/
def display : Literal → String
  | text value => "s: \"" ++ value ++ "\""
  | int value => "i: " ++ toString value
  | decimal value => "d: " ++ value.render
  | float value => "f: " ++ value.render
  | bool value => "b: " ++ (if value then "true" else "false")
  | null => "n: NULL"

/-- The name of the kind of a literal. -/
def kindName : Literal → String
  | text _ => "String"
  | int _ => "Int"
  | decimal _ => "Decimal"
  | float _ => "Float"
  | bool _ => "Bool"
  | null => "Null"

/-- A literal with the name of its kind around it. -/
def inspect (l : Literal) : String := l.kindName ++ "(" ++ l.display ++ ")"

/-! ### Reading numbers -/

/-- The value of decimal digits. -/
def natOfDigits (ds : List Char) : Nat :=
  ds.foldl (fun n c => 10 * n + (c.toNat - '0'.toNat)) 0

/-- The exponent at the end of a number: absent, or `e`, an optional sign and digits. -/
def exponentOf? : List Char → Option Int
  | [] => some 0
  | e :: rest =>
    if e == 'e' || e == 'E' then
      let (negative, ds) := match rest with
        | '-' :: ds => (true, ds)
        | '+' :: ds => (false, ds)
        | ds => (false, ds)
      if ds.isEmpty || !ds.all Char.isDigit then none
      else some (if negative then -(natOfDigits ds : Int) else natOfDigits ds)
    else none

/-- A decimal number as digits and an exponent of ten. It has at least one digit before its
exponent. -/
def decimalOf? (cs : List Char) : Option (Nat × Int) := do
  let whole := cs.takeWhile Char.isDigit
  let (fraction, rest) := match cs.dropWhile Char.isDigit with
    | '.' :: rest => (rest.takeWhile Char.isDigit, rest.dropWhile Char.isDigit)
    | rest => ([], rest)
  let exponent ← exponentOf? rest
  if (whole ++ fraction).isEmpty then none
  else return (natOfDigits (whole ++ fraction), exponent - fraction.length)

/-- The double-precision number nearest to a decimal number. -/
def binaryOf? (cs : List Char) : Option Binary64 :=
  (decimalOf? cs).map fun (digits, exponent) => .ofDecimal digits exponent

/-- The literal that the text of a number denotes. -/
def ofNumber? (number : String) : Option Literal :=
  let cs := number.toList
  if cs.any fun c => c == 'e' || c == 'E' then (binaryOf? cs).map float
  else if cs.contains '.' then (binaryOf? cs).map decimal
  else if !cs.isEmpty && cs.all Char.isDigit && decide (natOfDigits cs < Nat.pow 2 63) then
    some (int (natOfDigits cs))
  else (binaryOf? cs).map decimal

end Literal

end SqlSignature
