import SqlSignature.Analysis.Walk
import SqlSignature.Signature
import SqlSignature.Statement
/-!
# SqlSignature.Analysis.Modification

Statements that insert, update and delete rows. A bound value that is stored as it is belongs to the
data of the statement and has the type of the column it is stored in; the others are parameters.
-/

namespace SqlSignature

/-- The use of a bound value. -/
structure ParameterSlot where
  ordinal : Nat
  /-- The name to report, if it is not the one that the bound value has on its own. -/
  name : Option String
  notNull : Bool
  deriving Repr, DecidableEq

/-- What becomes of uses of bound values with one name. -/
inductive MergeRule where
  /-- They are one, which is not null when all of them are. -/
  | all
  /-- They are one, which is not null when some of them is. -/
  | any
  /-- They are reported one by one. -/
  | keep
  deriving Repr, DecidableEq

/-- The uses of bound values in a statement. -/
structure Slots where
  data : List ParameterSlot := []
  parameters : List ParameterSlot := []
  deriving Repr, DecidableEq

instance : Append Slots where
  append a b := { data := a.data ++ b.data, parameters := a.parameters ++ b.parameters }

/-- What the analysis of a modification finds out, before types are solved. -/
structure ModificationShape where
  type : StatementType
  slots : Slots
  merge : MergeRule
  deriving Repr, DecidableEq

/-- What a modification gives back: how many rows it touched, and the key of the row it inserted. -/
def ModificationShape.columns (shape : ModificationShape) : List ResultColumn :=
  let count (name : String) : ResultColumn :=
    { name, type := .single .int, notNull := true, origin := none, sourceName := name }
  if shape.type = .insert then [count "affectedRows", count "insertId"] else [count "affectedRows"]

/-- A column that a value is stored in. -/
structure Target where
  name : String
  var : TypeVar
  notNull : Bool
  deriving Repr, DecidableEq

def SourceColumn.toTarget (c : SourceColumn) : Target :=
  { name := c.name, var := c.var, notNull := c.notNull }

namespace Analysis

/-- Whether a stored value has to be not null. -/
def storedNotNull (input : AnalysisInput) (target : Target) : Bool :=
  input.config.dataNotNullFromSchema && target.notNull

/-- The name to report for a stored value: its own, or that of the column. -/
def storedName (input : AnalysisInput) (target : Target) (ordinal : Nat) : String :=
  (input.name? ordinal).getD target.name

/-- A use of a bound value under its own name. -/
def parameterSlot (s : AnalysisState) (ordinal : Nat) : ParameterSlot :=
  { ordinal, name := none, notNull := s.parameterNotNull ordinal }

/-- Notes that bound values can be null. -/
def markNullableOrdinals : List Nat → Analysis Unit
  | [] => pure ()
  | ordinal :: rest => do
    markNullable ordinal
    markNullableOrdinals rest

/-- Stores a value. A bound value as it is has the type of the column; any other value is only
hinted at by the column, and may be null unless the column may not. -/
def assignValue (input : AnalysisInput) (target : Target) (value : Expr) : Analysis Slots := do
  let var ← walk input value
  let notNull := storedNotNull input target
  match value.ordinal? with
  | some ordinal =>
    equate var target.var
    return { data := [{ ordinal, name := some (storedName input target ordinal), notNull }] }
  | none =>
    constrain (.hint var target.var)
    unless notNull do markNullableOrdinals value.ordinals
    let s ← get
    return { parameters := value.ordinals.map (parameterSlot s) }

/-- Stores the values of a row, as far as there are columns for them. -/
def assignRow (input : AnalysisInput) : List Target → List Expr → Analysis Slots
  | target :: targets, value :: values => do
    let slots ← assignValue input target value
    return slots ++ (← assignRow input targets values)
  | _, _ => pure {}

/-- Stores rows. -/
def assignRows (input : AnalysisInput) (targets : List Target) : List (List Expr) → Analysis Slots
  | [] => pure {}
  | row :: rest => do
    let slots ← assignRow input targets row
    return slots ++ (← assignRows input targets rest)

/-- The column that an assignment names. -/
def assignmentTarget (a : Assignment) : Analysis Target := do
  let column : ColumnRef := { schema := none, table := a.table, name := a.column }
  let s ← get
  match ← ofExcept (s.scopes.resolve column) with
  | .column bound =>
    let declared := do
      let scope ← s.scopes[bound.scope]?
      let source ← scope.sources[bound.source]?
      source.columns[bound.column]?
    return { name := bound.name, var := bound.var, notNull := declared.any SourceColumn.notNull }
  | .label _ _ => throw (.unknownColumn column.display [])

/-! ### Insertion -/

/-- The columns that an insertion names. -/
def namedTargets (source : Source) : List String → Except AnalysisError (List Target)
  | [] => .ok []
  | name :: rest =>
    match source.column? name with
    | some (_, column) => return column.toTarget :: (← namedTargets source rest)
    | none => .error (.unknownColumn name source.columnNames)

/-- The columns that the values of an insertion are stored in: all, if none are named. -/
def insertionTargets (source : Source) (names : List String) : Except AnalysisError (List Target) :=
  if names.isEmpty then .ok (source.columns.map SourceColumn.toTarget)
  else namedTargets source names

/-- Stores the columns of a query, as far as there are columns for them. A bound value that is
stored as it is can be null if the column can. -/
def assignColumns : List Target → List ShapeColumn → Analysis Unit
  | target :: targets, column :: columns => do
    equate column.var target.var
    unless target.notNull do
      match column.expr with
      | some e => markNullableExpr e
      | none => pure ()
    assignColumns targets columns
  | _, _ => pure ()

/-- The ordinals of the bound values of a query, in ascending order. -/
def queryOrdinals (q : Query) : List Nat :=
  ((q.descendants.filterMap Expr.ordinal?).mergeSort).eraseReps

/-- Stores the rows that an insertion inserts. -/
def assignSource (input : AnalysisInput) (targets : List Target) : InsertSource → Analysis Slots
  | .values rows => assignRows input targets rows
  | .query query => do
    let shape ← isolated (walkQuery input query)
    assignColumns targets shape.columns
    let s ← get
    return { parameters := (queryOrdinals query).map (parameterSlot s) }

/-- The assignments for rows that are there already. -/
def assignDuplicates (input : AnalysisInput) : List Assignment → Analysis Slots
  | [] => pure {}
  | a :: rest => do
    let target ← assignmentTarget a
    let slots ← assignValue input target a.value
    return slots ++ (← assignDuplicates input rest)

def walkInsertion (input : AnalysisInput) (insertion : Insertion) : Analysis ModificationShape := do
  let table := insertion.table
  let (slots, _) ← inScope {} do
    let source ← tableSource input table.schema table.name table.label
    let _ ← pushSource source
    let targets ← ofExcept (insertionTargets source insertion.columns)
    let slots ← assignSource input targets insertion.source
    return slots ++ (← assignDuplicates input insertion.onDuplicate)
  return { type := .insert, slots, merge := .any }

/-! ### Update and deletion -/

/-- Updates a column. The bound values inside of a value belong to the data, too. -/
def updateColumn (input : AnalysisInput) (a : Assignment) : Analysis Slots := do
  let target ← assignmentTarget a
  match a.value.ordinal? with
  | some _ => assignValue input target a.value
  | none =>
    let var ← walk input a.value
    constrain (.hint var target.var)
    let s ← get
    return { data := a.value.ordinals.map fun ordinal =>
      { ordinal, name := some (storedName input target ordinal)
        notNull := s.parameterNotNull ordinal && storedNotNull input target } }

/-- Updates columns. -/
def updateColumns (input : AnalysisInput) : List Assignment → Analysis Slots
  | [] => pure {}
  | a :: rest => do
    let slots ← updateColumn input a
    return slots ++ (← updateColumns input rest)

/-- The bound values of a filter. -/
def walkFilter (input : AnalysisInput) : Option Expr → Analysis Slots
  | none => pure {}
  | some filter => do
    let _ ← walk input filter
    let s ← get
    return { parameters := filter.ordinals.map (parameterSlot s) }

def walkUpdate (input : AnalysisInput) (update : Update) : Analysis ModificationShape := do
  let (slots, _) ← inScope {} do
    noteClause input update.tables
    let _ ← walkTables input {} update.tables
    let slots ← updateColumns input update.assignments
    return slots ++ (← walkFilter input update.filter)
  return { type := .update, slots, merge := .keep }

def walkDeletion (input : AnalysisInput) (deletion : Deletion) : Analysis ModificationShape := do
  let table := deletion.table
  let (slots, _) ← inScope {} do
    let _ ← addTable input table.schema table.name table.label
    walkFilter input deletion.filter
  return { type := .delete, slots, merge := .any }

end Analysis

end SqlSignature
