import SqlSignature.Analysis.Shape
import SqlSignature.Analysis.State
import SqlSignature.Expr.NullRejection
import SqlSignature.Expr.Nullability
/-!
# SqlSignature.Analysis.Outline

What can be read off a specification once its expressions have been analysed: which columns and
expressions are not null, whether there is at most one row, and the layout.
-/

namespace SqlSignature

namespace AnalysisState

/-! ### Not null -/

/-- Whether what a reference stands for is certainly not null. -/
def referenceNotNull (s : AnalysisState) : Reference → Bool
  | .column bound => (s.scopes[bound.scope]?).any fun scope =>
      scope.columnNotNull bound.source bound.column
  | .label _ notNull => notNull

/-- What is known of columns and bound values. -/
def nullFacts (s : AnalysisState) : NullFacts where
  column id := (s.references.lookup id).any s.referenceNotNull
  placeholder := s.parameterNotNull

/-- The columns of the innermost scope that predicates show to be not null. -/
def provenColumns (s : AnalysisState) (predicates : List Expr) : List (Nat × Nat) :=
  (predicates.flatMap Expr.nullRejected).filterMap fun e =>
    (s.localColumn? e).map fun bound => (bound.source, bound.column)

/-! ### Rows -/

/-- Whether an expression is a literal or a bound value. -/
def isValue (e : Expr) : Bool :=
  match e.form with
  | .literal _ | .placeholder _ => true
  | _ => false

/-- The column of the first table that an equality of a column and a value pins. -/
def pinnedBy (s : AnalysisState) (column value : Expr) : Option String :=
  if isValue value then
    (s.localColumn? column).bind fun bound => if bound.source = 0 then some bound.name else none
  else none

/-- The columns of the first table that a conjunct pins to a value. -/
def pinned (s : AnalysisState) (conjunct : Expr) : List String :=
  match conjunct.form with
  | .binary .eq left right => (s.pinnedBy left right).toList ++ (s.pinnedBy right left).toList
  | _ => []

/-- Whether a filter pins the whole primary key of a table. -/
def pinsPrimaryKey (s : AnalysisState) (table : Table) (filter : Expr) : Bool :=
  let pinned := filter.conjuncts.flatMap s.pinned
  !table.primaryKey.isEmpty &&
    table.primaryKey.all fun column => pinned.any (Text.sameName · column.name)

/-- Whether the filter of a specification pins the whole primary key of its only table. -/
def primaryKeyFilter (s : AnalysisState) (catalog : Catalog) (tables : List TableRef)
    (filter : Option Expr) : Bool :=
  match tables, filter with
  | [⟨.table schema name _ _, [], _⟩], some filter =>
    (catalog.table? schema name).any (s.pinsPrimaryKey · filter)
  | _, _ => false

/-- Whether an item of a select list is a value for all rows together. -/
def isAggregateItem : SelectItem → Bool
  | .expr value _ _ =>
    match value.form with
    | .call name _ _ _ _ => Function.isAggregate name
    | _ => false
  | _ => false

/-- Whether a specification has one row at most: it has no tables, or all rows are put together, or
its filter pins the primary key. -/
def singleRow (s : AnalysisState) (catalog : Catalog) (items : List SelectItem)
    (tables : List TableRef) (filter : Option Expr) (groupBy : List Expr) : Bool :=
  tables.isEmpty || (groupBy.isEmpty && !items.isEmpty && items.all isAggregateItem) ||
    s.primaryKeyFilter catalog tables filter

/-! ### Layout -/

/-- The columns of the innermost scope that an expression names. -/
def fields (s : AnalysisState) (e : Expr) (output : Option Nat) : List LayoutField :=
  (e.columns.filterMap s.localColumn?).map fun bound =>
    { source := bound.source, column := bound.name, output }

/-- A table with what it adds to the text of the query. -/
def layoutSource (source : Source) (fragment : String) : LayoutSource :=
  { visible := source.visible, table := source.table, derived := source.derived
    columns := source.columns.map fun c => (c.name, c.key), fragment }

/-- The link between a column of a joined table and a column of an earlier one. -/
def linkBetween (joined : Nat) (left right : BoundColumn) : Option JoinLink :=
  let link (child parent : BoundColumn) : JoinLink :=
    { child := child.source, childColumn := child.name
      parent := parent.source, parentColumn := parent.name }
  if left.source = joined then
    if right.source < joined then some (link left right) else none
  else if right.source = joined then
    if left.source < joined then some (link right left) else none
  else none

/-- The link that a conjunct of the condition of a join makes. -/
def linkOf (s : AnalysisState) (joined : Nat) (conjunct : Expr) : Option JoinLink :=
  match conjunct.form with
  | .binary .eq left right => do linkBetween joined (← s.localColumn? left) (← s.localColumn? right)
  | _ => none

/-- The link that a shared column makes, to the first earlier table that has the column. -/
def sharedLink (sources : List Source) (joined : Nat) (column : String) : Option JoinLink :=
  ((sources.take joined).findIdx? fun s => (s.column? column).isSome).map fun parent =>
    { child := joined, childColumn := column, parent, parentColumn := column }

/-- The links that joins make. -/
def links (s : AnalysisState) (sources : List Source) (shape : TablesShape) : List JoinLink :=
  (shape.conditions.flatMap fun (joined, condition) =>
      condition.conjuncts.filterMap (s.linkOf joined)) ++
    shape.shared.filterMap fun (joined, column) => sharedLink sources joined column

/-- A conjunct of a filter. -/
def layoutConjunct (s : AnalysisState) (text : String) (conjunct : Expr) : LayoutConjunct :=
  { text := conjunct.text text, fields := s.fields conjunct none, ordinals := conjunct.ordinals }

/-- The layout of a specification in the innermost scope. -/
def layout (s : AnalysisState) (text : String) (shape : TablesShape) (items : List LayoutItem)
    (filter : Option Expr) : Layout :=
  let sources := (s.scopes.back?.getD {}).sources
  { sources := sources.mapIdx fun index source =>
      layoutSource source (shape.fragments[index]?.getD "")
    links := s.links sources shape
    items
    conjuncts := (filter.toList.flatMap Expr.conjuncts).map (s.layoutConjunct text) }

end AnalysisState

/-- Notes the columns of the innermost scope that predicates show to be not null. -/
def Analysis.noteProven (predicates : List Expr) : Analysis Unit :=
  modify fun s => { s with
    scopes := s.scopes.modify s.scopes.innermost fun scope =>
      { scope with proven := scope.proven ++ s.provenColumns predicates } }

end SqlSignature
