import SqlSignature.ColumnType
/-!
# SqlSignature.ResultColumn

The columns of a result and the bound values of a statement, as they are reported.
-/

namespace SqlSignature

/-- The column of a table that a result column is. -/
structure ColumnOrigin where
  /-- The index of the table in the first specification of the query. -/
  source : Nat
  table : String
  visible : String
  column : String
  deriving Repr, DecidableEq

structure ResultColumn where
  name : String
  type : ColumnType
  notNull : Bool
  origin : Option ColumnOrigin
  /-- The name before columns with a name that is taken were renamed. -/
  sourceName : String
  deriving Repr, DecidableEq

structure Parameter where
  name : String
  type : ColumnType
  notNull : Bool
  /-- Whether the value is a list, `IN (?)`. -/
  list : Bool
  deriving Repr, DecidableEq

end SqlSignature
