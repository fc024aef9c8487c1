import SqlSignature.Analysis.Scope
import SqlSignature.Layout
/-!
# SqlSignature.Analysis.Shape

What the analysis of a query finds out about it, before types are solved.
-/

namespace SqlSignature

/-- A column of the result of a query. -/
structure ShapeColumn where
  name : String
  var : TypeVar
  notNull : Bool
  /-- The expression that gives the column, if it is one expression of the select list. -/
  expr : Option Expr
  origin : Option ColumnOrigin
  key : ColumnKey

/-- The alias that stands for a result column. -/
def ShapeColumn.toAlias (c : ShapeColumn) : SelectAlias :=
  { name := c.name, var := c.var, notNull := c.notNull }

/-- The column of a table that a result column becomes when its query stands in place of one. -/
def ShapeColumn.toSource (c : ShapeColumn) : SourceColumn :=
  { name := c.name, var := c.var, notNull := c.notNull, key := c.key }

/-- What the tables of a specification have besides columns. -/
structure TablesShape where
  /-- The conditions that hold in every row. -/
  predicates : List Expr := []
  /-- The conditions of joins, with the indices of the joined tables. -/
  conditions : List (Nat × Expr) := []
  /-- The columns that joins share, with the indices of the joined tables. -/
  shared : List (Nat × String) := []
  /-- What each table adds to the text of the query. -/
  fragments : List String := []

/-- What a select list gives. -/
structure SelectionShape where
  columns : List ShapeColumn := []
  items : List LayoutItem := []

/-- What a specification gives. -/
structure SpecShape where
  columns : List ShapeColumn
  layout : Layout
  scope : Scope
  /-- Whether there is at most one row. -/
  singleRow : Bool

/-- What a query gives. -/
structure QueryShape where
  columns : List ShapeColumn
  multipleRows : Bool
  /-- The layout of the first specification. -/
  layout : Layout
  /-- The columns of the tables of the first specification. -/
  tableColumns : List String
  sorted : Bool

end SqlSignature
