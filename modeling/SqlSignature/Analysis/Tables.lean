import SqlSignature.Analysis.Shape
import SqlSignature.Analysis.State
/-!
# SqlSignature.Analysis.Tables

The tables of a specification and their joins. An outer join can pad a side with nulls: a left join
the table that is joined, a right join the tables before it, a full join both. A condition that held
before a right or full join does not hold in the rows that the join pads.
-/

namespace SqlSignature

namespace Analysis

/-! ### Tables as sources of columns -/

/-- Adds variables for the columns of a table, each with its declared type. -/
def addColumns : List Column → Analysis (List SourceColumn)
  | [] => pure []
  | column :: rest => do
    let var ← freshVar
    fix var column.type
    let others ← addColumns rest
    return { name := column.name, var, notNull := column.notNull, key := column.key } :: others

/-- A table of the catalog. -/
def tableSource (input : AnalysisInput) (schema : Option String) (name : String)
    (label : Option String) : Analysis Source := do
  match input.catalog.table? schema name with
  | none => throw (.unknownTable name)
  | some table =>
    let columns ← addColumns table.columns
    return { visible := label.getD name, table := table.name, schema, columns
             outerNullable := false, derived := false }

/-- Adds a table of the catalog to the innermost scope. -/
def addTable (input : AnalysisInput) (schema : Option String) (name : String)
    (label : Option String) : Analysis Nat := do
  pushSource (← tableSource input schema name label)

/-- A query in place of a table. -/
def derivedSource (label : String) (columns : List ShapeColumn) : Source :=
  { visible := label, table := label, schema := none, columns := columns.map ShapeColumn.toSource
    outerNullable := false, derived := true }

end Analysis

/-! ### Joins -/

/-- Whether a join pads the table at an index, given the index of the joined table and that of the
first table that it is joined to. -/
def JoinKind.pads (kind : JoinKind) (first joined index : Nat) : Bool :=
  match kind with
  | .left => index == joined
  | .right => first ≤ index && index < joined
  | .full => first ≤ index && index ≤ joined
  | .inner | .cross => false

/-- Whether a join pads tables that came before it. -/
def JoinKind.padsEarlier : JoinKind → Bool
  | right | full => true
  | left | inner | cross => false

/-- Notes which tables a join pads. -/
def Scope.pad (scope : Scope) (kind : JoinKind) (first joined : Nat) : Scope :=
  { scope with
    sources := scope.sources.mapIdx fun index source =>
      { source with outerNullable := source.outerNullable || kind.pads first joined index } }

/-- Whether a joined table and a table before it both have a column. -/
def Scope.isOnBothSides (scope : Scope) (joined : Nat) (column : String) : Bool :=
  (scope.sources[joined]?).any (fun s => (s.column? column).isSome) &&
    (scope.sources.take joined).any fun s => (s.column? column).isSome

namespace TablesShape

/-- Adds the text of a table. -/
def addFragment (shape : TablesShape) (text : String) : TablesShape :=
  { shape with fragments := shape.fragments ++ [text] }

/-- Adds a table that is not joined. -/
def addItem (shape : TablesShape) (text : String) : TablesShape :=
  shape.addFragment ((if shape.fragments.isEmpty then "FROM " else ", ") ++ text)

/-- Adds a joined table. If the join pads earlier tables then only the conditions before this chain
of joins still hold; there are `kept` of them. -/
def addJoin (shape : TablesShape) (kind : JoinKind) (kept : Nat) (text : String) : TablesShape :=
  let shape := shape.addFragment text
  if kind.padsEarlier then { shape with predicates := shape.predicates.take kept } else shape

/-- Adds the condition of a join. -/
def addCondition (shape : TablesShape) (kind : JoinKind) (joined : Nat) (condition : Expr) :
    TablesShape :=
  { shape with
    conditions := shape.conditions ++ [(joined, condition)]
    predicates := if kind.isOuter then shape.predicates else shape.predicates ++ [condition] }

/-- Adds the columns that a join shares. -/
def addShared (shape : TablesShape) (joined : Nat) (columns : List String) : TablesShape :=
  { shape with shared := shape.shared ++ columns.map (joined, ·) }

end TablesShape

namespace Analysis

/-- Shares columns between a joined table and the tables before it. -/
def shareColumns (joined : Nat) : List String → Analysis Unit
  | [] => pure ()
  | column :: rest => do
    let scope ← innermostScope
    if scope.isOnBothSides joined column then
      modifyScope fun scope => { scope with shared := scope.shared ++ [column] }
      shareColumns joined rest
    else
      throw (.unknownColumn column (((scope.sources[joined]?).map Source.columnNames).getD []))

/-- The text of the clause that names tables. -/
def clauseText (input : AnalysisInput) (tables : List TableRef) : Option String :=
  match tables.head?, tables.getLast? with
  | some first, some last => some ("FROM " ++ (first.span.join last.span).text input.text)
  | _, _ => none

/-- Notes the text of the clause that names tables. -/
def noteClause (input : AnalysisInput) (tables : List TableRef) : Analysis Unit :=
  match clauseText input tables with
  | some text => modifyScope fun scope => { scope with tablesText := some text }
  | none => pure ()

end Analysis

end SqlSignature
