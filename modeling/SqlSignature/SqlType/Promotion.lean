import SqlSignature.SqlType
/-!
# SqlSignature.SqlType.Promotion

How types combine: the least common type of alternatives (`promote`), the type of a sum or product
(`arithmetic`) and of a quotient (`division`).
-/

namespace SqlSignature.SqlType

/-- The place of a numeric type among the numeric types, narrow ones first. -/
def numericRank : SqlType → Nat
  | tinyInt => 1
  | smallInt => 2
  | mediumInt => 3
  | int => 4
  | bigInt => 5
  | decimal => 6
  | float => 7
  | double => 8
  | _ => 0

/-- The place of a textual type among the textual types, short ones first. Of two types of one
length, the binary one comes later. -/
def textualRank : SqlType → Nat
  | char => 10
  | binary => 11
  | enum => 12
  | set => 13
  | varchar => 20
  | varBinary => 21
  | tinyText => 30
  | text => 40
  | blob => 41
  | mediumText => 50
  | longText => 60
  | _ => 0

/-- The textual type that holds the values of a type: the type itself from `varchar` on, else
`varchar`. -/
def asTextual (t : SqlType) : SqlType :=
  if t.isTextual && decide (varchar.textualRank ≤ t.textualRank) then t else varchar

/-- The least common type of two types. Numbers widen, points in time meet at `datetime`, and all
else meets among the textual types. -/
def promote (a b : SqlType) : SqlType :=
  if a = b then a
  else
    match a.family, b.family with
    | .null, _ => b
    | _, .null => a
    | .unknown, _ => b
    | _, .unknown => a
    | .numeric, .numeric => if b.numericRank ≤ a.numericRank then a else b
    | .temporal, .temporal => dateTime
    | _, _ =>
      if b.asTextual.textualRank ≤ a.asTextual.textualRank then a.asTextual else b.asTextual

/-- Whether arithmetic on the type is exact. -/
def isExact (t : SqlType) : Bool := t.isInteger || t == decimal || t == null

/-- The type of a sum, a difference, a product or a remainder. -/
def arithmetic (a b : SqlType) : SqlType :=
  if a.isUnknown || b.isUnknown then unknown
  else if a.isApproximate || b.isApproximate then double
  else if !a.isExact || !b.isExact then double
  else if a = decimal ∨ b = decimal then decimal
  else bigInt

/-- The type of a quotient. -/
def division (a b : SqlType) : SqlType :=
  match arithmetic a b with
  | bigInt => decimal
  | t => t

@[simp] theorem promote_self (a : SqlType) : promote a a = a := by simp [promote]

/-- The type of `NULL` promotes to whatever it meets. -/
@[simp] theorem promote_null_left (a : SqlType) : promote null a = a := by
  cases a <;> rfl

@[simp] theorem promote_null_right (a : SqlType) : promote a null = a := by
  cases a <;> rfl

end SqlSignature.SqlType
