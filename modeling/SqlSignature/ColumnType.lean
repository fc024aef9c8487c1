import SqlSignature.SqlType.Promotion
/-!
# SqlSignature.ColumnType

The type that is reported for a column or a parameter: one type, or the set of types that an
expression was seen to have.
-/

namespace SqlSignature

/-- A reported type. -/
inductive ColumnType where
  | single (type : SqlType)
  | oneOf (types : List SqlType)
  deriving Repr, DecidableEq

namespace ColumnType

/-- The single type that stands for a reported type. -/
def promoted : ColumnType → SqlType
  | single type => type
  | oneOf types => types.foldl SqlType.promote .null

/-- The reported type as text. -/
def display : ColumnType → String
  | single type => type.name
  | oneOf types => " | ".intercalate (types.map SqlType.name)

end ColumnType

end SqlSignature
