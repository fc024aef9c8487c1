import SqlSignature.Analysis.Outline
/-!
# SqlSignature.Analysis.Selection

The columns that select lists and unions give.
-/

namespace SqlSignature

/-- The name of a result column without a label: that of the column, or the text of the
expression. -/
def Expr.resultName (e : Expr) (text : String) : String :=
  match e.form with
  | .column column => column.name
  | _ => e.text text

namespace SelectionShape

/-- Adds an item with its columns. -/
def add (shape : SelectionShape) (text : String) (columns : List ShapeColumn)
    (fields : List LayoutField) : SelectionShape :=
  let first := shape.columns.length
  { columns := shape.columns ++ columns
    items := shape.items ++ [{ text, first, last := first + columns.length, fields }] }

end SelectionShape

namespace Analysis

/-- Adds an expression of a select list, which has been analysed, and makes it an alias. -/
def selectExpr (input : AnalysisInput) (shape : SelectionShape) (value : Expr) (var : TypeVar)
    (label : Option String) (span : Span) : Analysis SelectionShape := do
  let s ← get
  let bound := s.localColumn? value
  let column : ShapeColumn :=
    { name := label.getD (value.resultName input.text), var
      notNull := value.notNull s.nullFacts, expr := some value
      origin := bound.map BoundColumn.origin, key := (bound.map BoundColumn.key).getD .none }
  modifyScope fun scope => { scope with aliases := scope.aliases ++ [column.toAlias] }
  return shape.add (span.text input.text) [column] (s.fields value (some shape.columns.length))

/-- The result column that a column of a wildcard becomes. -/
def wildcardColumn (scope : Scope) (bound : BoundColumn) : ShapeColumn :=
  { name := bound.name, var := bound.var, notNull := scope.columnNotNull bound.source bound.column
    expr := none, origin := some bound.origin, key := bound.key }

/-- Adds the columns of a wildcard. -/
def selectBound (input : AnalysisInput) (shape : SelectionShape)
    (expand : Scopes → Except AnalysisError (List BoundColumn)) (span : Span) :
    Analysis SelectionShape := do
  let bound ← ofExcept (expand (← get).scopes)
  let scope ← innermostScope
  let first := shape.columns.length
  return shape.add (span.text input.text) (bound.map (wildcardColumn scope))
    (bound.mapIdx fun i b => { source := b.source, column := b.name, output := some (first + i) })

/-- Merges a result column with those at the same position of the other branches of a union. -/
def mergeColumn (column : ShapeColumn) (others : List ShapeColumn) : Analysis ShapeColumn := do
  let var ← freshVar
  constrain (.widen var (column.var :: others.map ShapeColumn.var))
  return { name := column.name, var, notNull := column.notNull && others.all ShapeColumn.notNull
           expr := none, origin := none, key := .none }

/-- Merges the columns of the first branch of a union, from a position on, with those of the
others. -/
def mergeColumns (branches : List (List ShapeColumn)) (position : Nat) :
    List ShapeColumn → Analysis (List ShapeColumn)
  | [] => pure []
  | column :: rest => do
    let merged ← mergeColumn column (branches.filterMap (·[position]?))
    return merged :: (← mergeColumns branches (position + 1) rest)

/-- The columns of a union. One branch alone keeps its columns. -/
def unionColumns (first : List ShapeColumn) (branches : List SpecShape) :
    Analysis (List ShapeColumn) :=
  if branches.isEmpty then pure first
  else mergeColumns (branches.map SpecShape.columns) 0 first

end Analysis

end SqlSignature
