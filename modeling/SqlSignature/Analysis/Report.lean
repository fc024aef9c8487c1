import SqlSignature.Analysis.Modification
/-!
# SqlSignature.Analysis.Report

The signature of a statement. The statement is walked, the types are solved, and what was found is
reported.
-/

namespace SqlSignature

/-- The signature of a statement and the layout of its query. -/
structure AnalysisResult where
  signature : Signature
  /-- The layout of the first specification, if the statement is a query. -/
  layout : Option Layout
  /-- What the resolver was asked. -/
  calls : List ResolverCall

namespace Report

/-! ### Columns -/

/-- The type of a result column. A set of types that the resolver gave stands as it is. -/
def columnType (s : AnalysisState) (c : ShapeColumn) : ColumnType :=
  ((c.expr.bind fun e => s.typeSets.lookup e.id)).getD (.single (s.solver.resolved c.var))

def column (s : AnalysisState) (c : ShapeColumn) : ResultColumn :=
  { name := c.name, type := columnType s c, notNull := c.notNull, origin := c.origin
    sourceName := c.name }

/-- Adds `_2`, `_3` and so on to names that have come before. -/
def renameAfter (seen : List String) : List ResultColumn → List ResultColumn
  | [] => []
  | c :: rest =>
    let count := seen.count c.name
    let name := if count = 0 then c.name else c.name ++ "_" ++ toString (count + 1)
    { c with name } :: renameAfter (c.name :: seen) rest

/-- Renames the second and later columns with a name. -/
def renameDuplicates (columns : List ResultColumn) : List ResultColumn := renameAfter [] columns

/-- The names that a result can be sorted by: columns of tables, then result columns. -/
def sortNames (tableColumns resultColumns : List String) : List String :=
  (tableColumns ++ resultColumns).eraseDups

/-! ### Bound values -/

/-- The name of a bound value that is used at a position: its own, or one with a number. -/
def parameterName (input : AnalysisInput) (ordinal position : Nat) : String :=
  (input.name? ordinal).getD ("param" ++ toString (position + 1))

/-- The report of a use of a bound value at a position. -/
def parameter (input : AnalysisInput) (s : AnalysisState) (position : Nat) (slot : ParameterSlot) :
    Parameter :=
  let facts := s.parameters[slot.ordinal]?
  { name := slot.name.getD (parameterName input slot.ordinal position)
    type := .single ((facts.map fun f => s.solver.resolved f.var).getD .unknown)
    notNull := slot.notNull, list := facts.any ParameterFacts.list }

/-- Merges two uses of bound values with one name. -/
def mergePair (rule : MergeRule) (a b : Parameter) : Parameter :=
  { a with
    notNull := if rule = .all then a.notNull && b.notNull else a.notNull || b.notNull
    list := a.list || b.list }

/-- Adds a use of a bound value to those before it, of which no two have one name. -/
def mergeInto (rule : MergeRule) (found : List Parameter) (p : Parameter) : List Parameter :=
  if found.any (·.name == p.name) then
    found.map fun a => if a.name == p.name then mergePair rule a p else a
  else found ++ [p]

/-- The report of uses of bound values. Those with one name are merged if the statement has names
for bound values. -/
def parameters (input : AnalysisInput) (s : AnalysisState) (rule : MergeRule)
    (slots : List ParameterSlot) : List Parameter :=
  let all := slots.mapIdx (parameter input s)
  if rule ≠ .keep && input.hasNames then all.foldl (mergeInto rule) [] else all

/-! ### Statements -/

/-- Finds the types. -/
def solve (input : AnalysisInput) (s : AnalysisState) : AnalysisState :=
  { s with solver := s.solver.solve input.config.defaultParameterType }

/-- The report of a query, once types are solved. -/
def ofQuery (input : AnalysisInput) (s : AnalysisState) (shape : QueryShape) : AnalysisResult :=
  let found := shape.columns.map (column s)
  let columns := if input.config.renameDuplicates then renameDuplicates found else found
  let slots := (List.range s.parameters.size).map (Analysis.parameterSlot s)
  { signature :=
      { text := input.text, type := .select, multipleRows := shape.multipleRows, columns
        parameters := parameters input s .any slots
        orderByColumns :=
          if shape.sorted then
            some (sortNames shape.tableColumns (columns.map ResultColumn.name))
          else none
        parameterNames := if input.hasNames then some (input.names.filterMap id) else none }
    layout := some shape.layout, calls := s.calls.toList }

/-- The report of a modification, once types are solved. -/
def ofModification (input : AnalysisInput) (s : AnalysisState) (shape : ModificationShape) :
    AnalysisResult :=
  { signature :=
      { text := input.text, type := shape.type, columns := shape.columns
        parameters := parameters input s shape.merge shape.slots.parameters
        data :=
          if shape.type = .delete then none else some (parameters input s .all shape.slots.data) }
    layout := none, calls := s.calls.toList }

end Report

namespace Statement

/-- Walks a statement, solves the types and reports. -/
def report {α : Type} (statement : Statement) (input : AnalysisInput) (step : Analysis α)
    (result : AnalysisState → α → AnalysisResult) : Except AnalysisError AnalysisResult :=
  match step (.initial input statement.placeholders) with
  | .ok shape s => .ok (result (Report.solve input s) shape)
  | .error e _ => .error e

/-- Finds the signature of a statement. -/
def analyze (statement : Statement) (input : AnalysisInput) :
    Except AnalysisError AnalysisResult :=
  match statement.kind with
  | .select query =>
    statement.report input (Analysis.walkQuery input query) (Report.ofQuery input)
  | .insert insertion =>
    statement.report input (Analysis.walkInsertion input insertion) (Report.ofModification input)
  | .update update =>
    statement.report input (Analysis.walkUpdate input update) (Report.ofModification input)
  | .delete deletion =>
    statement.report input (Analysis.walkDeletion input deletion) (Report.ofModification input)

end Statement

end SqlSignature
