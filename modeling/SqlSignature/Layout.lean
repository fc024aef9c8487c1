import SqlSignature.Catalog
/-!
# SqlSignature.Layout

The outline of a query: the tables it reads and how they are joined, what it selects, and the parts
of its filter. Nested results and optional parts are described from it.
-/

namespace SqlSignature

/-- A column of a table of the query. -/
structure LayoutField where
  /-- The index of the table. -/
  source : Nat
  column : String
  /-- The index of the result column that the field ends up in. -/
  output : Option Nat
  deriving Repr, DecidableEq

structure LayoutSource where
  visible : String
  table : String
  /-- Whether a query stands in place of a table. -/
  derived : Bool
  columns : List (String × ColumnKey)
  /-- What the table adds to the text of the query. -/
  fragment : String
  deriving Repr, DecidableEq

/-- The key of a column. -/
def LayoutSource.key (s : LayoutSource) (column : String) : ColumnKey :=
  ((s.columns.find? fun (name, _) => Text.sameName name column).map Prod.snd).getD .none

/-- An equality between a column of a joined table and a column of an earlier table. -/
structure JoinLink where
  child : Nat
  childColumn : String
  parent : Nat
  parentColumn : String
  deriving Repr, DecidableEq

/-- An item of the select list, with the result columns it has: those from `first` up to but
without `last`. -/
structure LayoutItem where
  text : String
  first : Nat
  last : Nat
  fields : List LayoutField
  deriving Repr, DecidableEq

/-- A conjunct of the filter. -/
structure LayoutConjunct where
  text : String
  fields : List LayoutField
  /-- The ordinals of the bound values in the conjunct. -/
  ordinals : List Nat
  deriving Repr, DecidableEq

structure Layout where
  sources : List LayoutSource
  links : List JoinLink
  items : List LayoutItem
  conjuncts : List LayoutConjunct
  deriving Repr, DecidableEq

end SqlSignature
