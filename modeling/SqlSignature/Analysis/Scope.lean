import SqlSignature.Analysis.Error
import SqlSignature.Catalog
import SqlSignature.Expr
import SqlSignature.Inference.TypeVars
import SqlSignature.ResultColumn
/-!
# SqlSignature.Analysis.Scope

The names that a query can speak of. Each specification has a scope with its tables and its aliases;
the scopes of the queries around it are visible behind its own. A column name is looked up from the
innermost scope outwards.
-/

namespace SqlSignature

/-- A column of a table in a scope. -/
structure SourceColumn where
  name : String
  var : TypeVar
  /-- Whether the table itself admits no null here. -/
  notNull : Bool
  key : ColumnKey
  deriving Repr, DecidableEq

/-- A table in a scope. -/
structure Source where
  visible : String
  table : String
  schema : Option String
  columns : List SourceColumn
  /-- Whether an outer join can pad the table with nulls. -/
  outerNullable : Bool
  /-- Whether a query stands in place of a table. -/
  derived : Bool
  deriving Repr, DecidableEq

namespace Source

/-- The column with a name and its index. -/
def column? (s : Source) (name : String) : Option (Nat × SourceColumn) := do
  let index ← s.columns.findIdx? fun c => Text.sameName c.name name
  let column ← s.columns[index]?
  return (index, column)

def columnNames (s : Source) : List String := s.columns.map SourceColumn.name

end Source

/-- A result column that later clauses can name. -/
structure SelectAlias where
  name : String
  var : TypeVar
  notNull : Bool
  deriving Repr, DecidableEq

/-- The names of one specification. -/
structure Scope where
  sources : List Source := []
  /-- The columns that joins share; naming one of them is not ambiguous. -/
  shared : List String := []
  aliases : List SelectAlias := []
  /-- Columns, by table and index, that a filter shows to be not null. -/
  proven : List (Nat × Nat) := []
  /-- Whether aliases can be named. -/
  allowAliases : Bool := false
  /-- The text of the clause that names the tables. -/
  tablesText : Option String := none
  deriving Repr, DecidableEq

namespace Scope

/-- The table with a visible name and its index. -/
def source? (s : Scope) (visible : String) : Option (Nat × Source) := do
  let index ← s.sources.findIdx? fun t => Text.sameName t.visible visible
  let source ← s.sources[index]?
  return (index, source)

/-- The alias with a name. -/
def alias? (s : Scope) (name : String) : Option SelectAlias :=
  s.aliases.find? fun a => Text.sameName a.name name

/-- Whether joins share a column. -/
def isShared (s : Scope) (name : String) : Bool := s.shared.any (Text.sameName · name)

/-- Whether a column is not null in any row that the query keeps. -/
def columnNotNull (s : Scope) (source column : Nat) : Bool :=
  match s.sources[source]? with
  | some table =>
    let declared := (table.columns[column]?).any SourceColumn.notNull
    (declared && !table.outerNullable) || s.proven.contains (source, column)
  | none => false

end Scope

/-! ### References -/

/-- A column name together with what it names. -/
structure BoundColumn where
  /-- The index of the scope, counted from the outermost. -/
  scope : Nat
  source : Nat
  column : Nat
  var : TypeVar
  visible : String
  table : String
  name : String
  key : ColumnKey
  deriving Repr, DecidableEq

/-- The column of a table in a scope. -/
def BoundColumn.of (scope : Nat) (source : Nat × Source) (column : Nat × SourceColumn) :
    BoundColumn :=
  { scope, source := source.1, column := column.1, var := column.2.var,
    visible := source.2.visible, table := source.2.table, name := column.2.name,
    key := column.2.key }

/-- Where a bound column comes from. -/
def BoundColumn.origin (b : BoundColumn) : ColumnOrigin :=
  { source := b.source, table := b.table, visible := b.visible, column := b.name }

/-- What a column name stands for. -/
inductive Reference where
  | column (bound : BoundColumn)
  | label (var : TypeVar) (notNull : Bool)
  deriving Repr, DecidableEq

def Reference.var : Reference → TypeVar
  | column bound => bound.var
  | label var _ => var

/-- The scopes of a place in a statement, the outermost first. -/
abbrev Scopes := Array Scope

namespace Scopes

/-- The index of the innermost scope. -/
def innermost (scopes : Scopes) : Nat := scopes.size - 1

/-- The scopes with their indices, the innermost first. -/
def inwards (scopes : Scopes) : List (Scope × Nat) := scopes.toList.zipIdx.reverse

/-- Whether a table can be meant by a schema. A table without a schema can be meant by any. -/
def schemaFits (wanted actual : Option String) : Bool :=
  match wanted, actual with
  | some wanted, some actual => Text.sameName wanted actual
  | _, _ => true

/-- Looks up a column of a named table. The first scope that has the table decides. -/
def resolveQualified (table : String) (c : ColumnRef) :
    List (Scope × Nat) → Except AnalysisError Reference
  | [] => .error (.unknownTable table)
  | (scope, index) :: outer =>
    match scope.source? table with
    | none => resolveQualified table c outer
    | some source =>
      if schemaFits c.schema source.2.schema then
        match source.2.column? c.name with
        | some column => .ok (.column (.of index source column))
        | none => .error (.unknownColumn (table ++ "." ++ c.name) source.2.columnNames)
      else resolveQualified table c outer

/-- The columns with a name in the tables of a scope. -/
def columnsNamed (scope : Scope) (name : String) : List ((Nat × Source) × (Nat × SourceColumn)) :=
  scope.sources.zipIdx.filterMap fun (source, index) =>
    (source.column? name).map fun column => ((index, source), column)

/-- Looks up a column without a table. The first scope that has the column decides; the innermost
scope can also offer its aliases. -/
def resolvePlain (scopes : Scopes) (name : String) :
    List (Scope × Nat) → Except AnalysisError Reference
  | [] => .error (.unknownColumn name
      ((scopes.back?.map fun s => s.sources.flatMap Source.columnNames).getD []))
  | (scope, index) :: outer =>
    match columnsNamed scope name with
    | [] =>
      match if index == scopes.innermost && scope.allowAliases then scope.alias? name else none with
      | some found => .ok (.label found.var found.notNull)
      | none => resolvePlain scopes name outer
    | (source, column) :: others =>
      if !others.isEmpty && !scope.isShared name then
        .error (.ambiguousColumn name (((source, column) :: others).map fun (s, c) =>
          s.2.visible ++ "." ++ c.2.name))
      else .ok (.column (.of index source column))

/-- Looks up a column. -/
def resolve (scopes : Scopes) (c : ColumnRef) : Except AnalysisError Reference :=
  match c.table with
  | some table => resolveQualified table c scopes.inwards
  | none => resolvePlain scopes c.name scopes.inwards

/-! ### Wildcards -/

/-- The columns of a table of the innermost scope. -/
def columnsOf (scopes : Scopes) (source : Nat × Source) : List BoundColumn :=
  source.2.columns.zipIdx.map fun (column, index) =>
    .of scopes.innermost source (index, column)

/-- The columns of all tables of the innermost scope. -/
def expandAll (scopes : Scopes) : Except AnalysisError (List BoundColumn) :=
  match scopes.back? with
  | none => .error (.invalidStatement .wildcardOutsideQuery)
  | some scope =>
    if scope.sources.isEmpty then .error (.invalidStatement .noTablesUsed)
    else .ok (scope.sources.zipIdx.flatMap fun (source, index) => scopes.columnsOf (index, source))

/-- The columns of one table of the innermost scope. -/
def expandTable (scopes : Scopes) (table : String) : Except AnalysisError (List BoundColumn) :=
  match scopes.back? with
  | none => .error (.invalidStatement .wildcardOutsideQuery)
  | some scope =>
    match scope.source? table with
    | some source => .ok (scopes.columnsOf source)
    | none => .error (.unknownTable table)

end Scopes

end SqlSignature
