import SqlSignature.Analysis.Rule
import SqlSignature.Analysis.Selection
import SqlSignature.Analysis.Tables
/-!
# SqlSignature.Analysis.Walk

The walk over expressions and queries. Operands come before the expressions that they belong to.
In a specification the tables come first, then the filter, the select list, the grouping; a
specification has a scope of its own, and a query in place of a table sees no scope but its own.
-/

namespace SqlSignature

namespace Analysis

/-- The scope in which sort keys stand: that of the only specification, or one with the columns of
the union. The keys can name result columns. -/
def sortScope (first : SpecShape) (branches : List SpecShape) (columns : List ShapeColumn) :
    Scope :=
  let scope : Scope :=
    if branches.isEmpty then first.scope else { aliases := columns.map ShapeColumn.toAlias }
  { scope with allowAliases := true }

/-- Whether a limit is the literal one. -/
def isLimitOne : Option Limit → Bool
  | some ⟨.node _ _ (.literal (.int 1)), _⟩ => true
  | _ => false

/-- What a query gives, from what its specifications give. -/
def queryShape (config : Config) (first : SpecShape) (branches : List SpecShape)
    (columns : List ShapeColumn) (limit : Option Limit) (sorted : Bool) : QueryShape :=
  let singleRow := isLimitOne limit || (branches.isEmpty && first.singleRow)
  { columns, multipleRows := !config.inferMultipleRows || !singleRow, layout := first.layout
    tableColumns := first.scope.sources.flatMap Source.columnNames, sorted }

variable (input : AnalysisInput)

mutual

/-- Analyses an expression, and gives back its variable. -/
def walk : Expr → Analysis TypeVar
  | .node id span form => walkForm (.node id span form) form

/-- Analyses the operands of an expression of a form, and then the expression. -/
def walkForm (e : Expr) : ExprForm → Analysis TypeVar
  | .literal value => fixed e value.naturalType
  | .column column => bindColumn e column
  | .placeholder _ => varOf e
  | .unary op operand => do
    let var ← walk operand
    unaryRule e op var
  | .binary op left right => do
    let leftVar ← walk left
    let rightVar ← walk right
    if (op == .add || op == .sub) && (left.isInterval || right.isInterval) then
      shiftRule e (if right.isInterval then 0 else 1) leftVar rightVar
    else binaryRule e op leftVar rightVar
  | .isNull operand _ => do
    let _ ← walk operand
    markNullableExpr operand
    truth e
  | .isTruth operand _ _ => do
    let _ ← walk operand
    truth e
  | .inList operand list _ => do
    let var ← walk operand
    walkElements var list
    match list with
    | [single] => markList single
    | _ => pure ()
    truth e
  | .inQuery operand query _ => do
    let var ← walk operand
    let shape ← walkQuery query
    equateAll var (shape.columns.head?.toList.map ShapeColumn.var)
    truth e
  | .between operand low high _ => do
    let var ← walk operand
    let lowVar ← walk low
    let highVar ← walk high
    equateAll var [lowVar, highVar]
    truth e
  | .like operand pattern escape _ => do
    let var ← walk operand
    let patternVar ← walk pattern
    expectAll .varchar [var, patternVar]
    let escapeVar ← walkOption escape
    expectAll .varchar escapeVar.toList
    truth e
  | .choice operand branches otherwise => do
    let operandVar ← walkOption operand
    let results ← walkBranches operandVar branches
    let otherwiseVar ← walkOption otherwise
    widened e (results ++ otherwiseVar.toList)
  | .call name args _ _ _ => do
    let vars ← walkList args
    callRule input e name args vars
  | .cast operand target => do
    let _ ← walk operand
    fixed e target
  | .interval operand _ => do
    let var ← walk operand
    expect var .bigInt
    fixed e .unknown
  | .existence query => do
    let _ ← walkQuery query
    truth e
  | .subquery query => do
    let shape ← walkQuery query
    widened e (shape.columns.head?.toList.map ShapeColumn.var)

/-- Analyses several expressions. -/
def walkList : List Expr → Analysis (List TypeVar)
  | [] => pure []
  | e :: rest => do
    let var ← walk e
    let vars ← walkList rest
    return var :: vars

/-- Analyses an expression that may be left out. -/
def walkOption : Option Expr → Analysis (Option TypeVar)
  | none => pure none
  | some e => do
    let var ← walk e
    return some var

/-- Analyses the elements of a list, each of which is compared with a value. -/
def walkElements (value : TypeVar) : List Expr → Analysis Unit
  | [] => pure ()
  | e :: rest => do
    let var ← walk e
    equate value var
    walkElements value rest

/-- Analyses branches, whose conditions are compared with a value if there is one, and gives back
the variables of their results. -/
def walkBranches (value : Option TypeVar) : List Branch → Analysis (List TypeVar)
  | [] => pure []
  | ⟨condition, result⟩ :: rest => do
    let var ← walk condition
    match value with
    | some value => equate value var
    | none => pure ()
    let resultVar ← walk result
    let vars ← walkBranches value rest
    return resultVar :: vars

/-- Analyses a query. -/
def walkQuery : Query → Analysis QueryShape
  | ⟨specs, _, orderBy, limit, _⟩ => do
    let shapes ← walkSpecs specs
    match shapes with
    | [] => throw (.invalidStatement .noSelectList)
    | first :: branches =>
      let columns ← unionColumns first.columns branches
      let _ ← inScope (sortScope first branches columns) (walkSortKeys orderBy)
      walkLimit limit
      return queryShape input.config first branches columns limit (!orderBy.isEmpty)

/-- Analyses specifications, each in a scope of its own. -/
def walkSpecs : List QuerySpec → Analysis (List SpecShape)
  | [] => pure []
  | ⟨_, items, tables, filter, groupBy, having, _⟩ :: rest => do
    let ((columns, layout, singleRow), scope) ← inScope {} do
      noteClause input tables
      let joined ← walkTables {} tables
      let _ ← walkOption filter
      noteProven (joined.predicates ++ filter.toList)
      let selected ← walkItems {} items
      modifyScope fun scope => { scope with allowAliases := true }
      let _ ← walkList groupBy
      let _ ← walkOption having
      let s ← get
      return (selected.columns, s.layout input.text joined selected.items filter,
        s.singleRow input.catalog items tables filter groupBy)
    let shapes ← walkSpecs rest
    return { columns, layout, scope, singleRow } :: shapes

/-- Analyses select items. -/
def walkItems (shape : SelectionShape) : List SelectItem → Analysis SelectionShape
  | [] => pure shape
  | .all span :: rest => do
    let shape ← selectBound input shape Scopes.expandAll span
    walkItems shape rest
  | .allOf table span :: rest => do
    let shape ← selectBound input shape (Scopes.expandTable · table) span
    walkItems shape rest
  | .expr value label span :: rest => do
    let var ← walk value
    let shape ← selectExpr input shape value var label span
    walkItems shape rest

/-- Analyses the tables of a specification, each with the tables that are joined to it. -/
def walkTables (shape : TablesShape) : List TableRef → Analysis TablesShape
  | [] => pure shape
  | ⟨factor, joins, _⟩ :: rest => do
    let source ← walkFactor factor
    let first ← pushSource source
    let shape := shape.addItem (factor.span.text input.text)
    let shape ← walkJoins first shape.predicates.length shape joins
    walkTables shape rest

/-- Analyses the tables that are joined to the table at an index. Before them there were `kept`
conditions. -/
def walkJoins (first kept : Nat) (shape : TablesShape) : List Join → Analysis TablesShape
  | [] => pure shape
  | ⟨kind, factor, constraint, span⟩ :: rest => do
    let source ← walkFactor factor
    let joined ← pushSource source
    modifyScope (·.pad kind first joined)
    let shape := shape.addJoin kind kept (span.text input.text)
    let shape ← walkConstraint kind joined shape constraint
    walkJoins first kept shape rest

/-- Analyses the constraint of a join. -/
def walkConstraint (kind : JoinKind) (joined : Nat) (shape : TablesShape) :
    JoinConstraint → Analysis TablesShape
  | .on condition => do
    let _ ← walk condition
    return shape.addCondition kind joined condition
  | .shared columns => do
    shareColumns joined columns
    return shape.addShared joined columns
  | .none => pure shape

/-- Analyses a table, or a query in place of one. -/
def walkFactor : TableFactor → Analysis Source
  | .table schema name label _ => tableSource input schema name label
  | .derived query label _ => do
    let shape ← isolated (walkQuery query)
    return derivedSource label shape.columns

/-- Analyses sort keys. -/
def walkSortKeys : List SortKey → Analysis Unit
  | [] => pure ()
  | ⟨expr, _⟩ :: rest => do
    let _ ← walk expr
    walkSortKeys rest

/-- Analyses a limit. -/
def walkLimit : Option Limit → Analysis Unit
  | none => pure ()
  | some ⟨count, offset⟩ => do
    let var ← walk count
    expect var .bigInt
    let offsetVar ← walkOption offset
    expectAll .bigInt offsetVar.toList

end

end Analysis

end SqlSignature
