import SqlSignature.Proofs.WalkFrame
import SqlSignature.Proofs.WalkTrace
/-!
# SqlSignature.Proofs.StatementTrace

What the walk over a statement meets. A bound value that is stored in a column as it is is a use of
that column; the type of the column is read off the catalog for an insertion, and looked up in the
tables of an update. A comparison of a bound value with a column name, wherever it stands in the
statement, is met as a use, or else its bound value is not met at all (`Statement.follows_trace`).
-/

open List

namespace SqlSignature

open SqlSignature.Expr Assignment

/-! ### Stored values -/

/-- What is met of a value that is stored in a column. -/
def Expr.storedTrace (frames : Frames) (type : Option SqlType) (value : Expr) : Trace :=
  match value.ordinal? with
  | some ordinal => { uses := [.stored ordinal type] }
  | none => value.trace frames

/-- What is met of a row that is stored in columns. Values without a column are passed over. -/
def Expr.rowTrace (frames : Frames) : List (Option SqlType) → List Expr → Trace
  | type :: types, value :: values =>
    value.storedTrace frames type ++ Expr.rowTrace frames types values
  | _, _ => {}

def Expr.rowsTrace (frames : Frames) (types : List (Option SqlType)) : List (List Expr) → Trace
  | [] => {}
  | row :: rest => Expr.rowTrace frames types row ++ Expr.rowsTrace frames types rest

/-- What is met of assignments to columns of known types. -/
def Assignment.traceList (frames : Frames) (type? : Assignment → Option SqlType) :
    List Assignment → Trace
  | [] => {}
  | a :: rest => a.value.storedTrace frames (type? a) ++ Assignment.traceList frames type? rest

/-! ### Insertions -/

/-- A table by name as a table of a clause. -/
def TableName.factor (t : TableName) : TableFactor := .table t.schema t.name t.label default

/-- The types of the columns that the values of an insertion are stored in: all columns, if none are
named. -/
def Table.storedTypes (table : Table) (names : List String) : List (Option SqlType) :=
  if names.isEmpty then table.columns.map fun c => some c.type
  else names.map fun name => (table.column? name).map Column.type

/-- The type of the column that an assignment names. -/
def Table.assignedType (table : Table) (a : Assignment) : Option SqlType :=
  (table.column? a.column).map Column.type

def InsertSource.trace (frames : Frames) (types : List (Option SqlType)) : InsertSource → Trace
  | .values rows => Expr.rowsTrace frames types rows
  | .query q => q.trace []

def Insertion.trace (i : Insertion) (catalog : Catalog) : Trace :=
  match catalog.table? i.table.schema i.table.name with
  | none => {}
  | some table =>
    i.source.trace [[i.table.factor]] (table.storedTypes i.columns) ++
      Assignment.traceList [[i.table.factor]] table.assignedType i.onDuplicate

/-! ### Updates and deletions -/

/-- The name of the column that is assigned to. -/
def Assignment.target (a : Assignment) : ColumnRef :=
  { schema := none, table := a.table, name := a.column }

/-- The type of the column that an assignment names, among the tables of scopes. -/
def Assignment.declaredType (a : Assignment) (catalog : Catalog) (frames : Frames)
    (scopes : Scopes) : Option SqlType :=
  match scopes.resolve a.target with
  | .ok (.column bound) => bound.declaredType catalog frames
  | _ => none

namespace Update

/-- The walk over the tables of an update. -/
def walkSources (u : Update) (input : AnalysisInput) : Analysis TablesShape := do
  Analysis.noteClause input u.tables
  Analysis.walkTables input {} u.tables

/-- The scopes in which the assignments of an update stand. -/
def scopes (u : Update) (input : AnalysisInput) (placeholders : Nat) : Scopes :=
  (Analysis.after (u.walkSources input)
    { AnalysisState.initial input placeholders with scopes := #[{}] }).scopes

/-- The type of the column that an assignment of an update names. -/
def assignedType (u : Update) (input : AnalysisInput) (placeholders : Nat) (a : Assignment) :
    Option SqlType :=
  a.declaredType input.catalog [TableRef.factors u.tables] (u.scopes input placeholders)

def trace (u : Update) (input : AnalysisInput) (placeholders : Nat) : Trace :=
  let frames := [TableRef.factors u.tables]
  TableRef.traceList frames u.tables ++
    Assignment.traceList frames (u.assignedType input placeholders) u.assignments ++
    Expr.traceOption frames u.filter

end Update

/-- What the walk over a statement meets. -/
def Statement.trace (statement : Statement) (input : AnalysisInput) : Trace :=
  match statement.kind with
  | .select query => query.trace []
  | .insert insertion => insertion.trace input.catalog
  | .update update => update.trace input statement.placeholders
  | .delete deletion => Expr.traceOption [[deletion.table.factor]] deletion.filter

/-- A bound value is stored as it is in a column of a declared type. -/
inductive Statement.Stores (statement : Statement) (input : AnalysisInput) (ordinal : Nat)
    (type : SqlType) : Prop
  | value {insertion : Insertion} {table : Table} {rows : List (List Expr)} {row : List Expr}
      {position : Nat} {value : Expr} : statement.kind = .insert insertion →
      input.catalog.table? insertion.table.schema insertion.table.name = some table →
      insertion.source = .values rows → row ∈ rows → row[position]? = some value →
      value.ordinal? = some ordinal →
      (table.storedTypes insertion.columns)[position]? = some (some type) →
      Stores statement input ordinal type
  | duplicate {insertion : Insertion} {table : Table} {a : Assignment} :
      statement.kind = .insert insertion →
      input.catalog.table? insertion.table.schema insertion.table.name = some table →
      a ∈ insertion.onDuplicate → a.value.ordinal? = some ordinal →
      table.assignedType a = some type → Stores statement input ordinal type
  | update {update : Update} {a : Assignment} : statement.kind = .update update →
      a ∈ update.assignments → a.value.ordinal? = some ordinal →
      update.assignedType input statement.placeholders a = some type →
      Stores statement input ordinal type

/-! ### Stored values are met -/

variable {frames : Frames} {type : Option SqlType} {ordinal : Nat} {types : List (Option SqlType)}

theorem Expr.mem_uses_storedTrace {value : Expr} (h : value.ordinal? = some ordinal) :
    Use.stored ordinal type ∈ (value.storedTrace frames type).uses := by
  rw [Expr.storedTrace, h]
  exact mem_cons_self

theorem Expr.mem_uses_rowTrace :
    ∀ {types : List (Option SqlType)} {row : List Expr} {position : Nat} {value : Expr},
      row[position]? = some value → value.ordinal? = some ordinal →
      types[position]? = some type → Use.stored ordinal type ∈ (Expr.rowTrace frames types row).uses
  | [], _, _, _, _, _, htype => by simp at htype
  | _ :: _, [], _, _, hvalue, _, _ => by simp at hvalue
  | first :: types, head :: row, 0, value, hvalue, hordinal, htype => by
    cases hvalue
    cases htype
    exact mem_append_left _ (mem_uses_storedTrace hordinal)
  | first :: types, head :: row, position + 1, value, hvalue, hordinal, htype =>
    mem_append_right _ (mem_uses_rowTrace hvalue hordinal htype)

theorem Expr.mem_uses_rowsTrace {use : Use} {rows : List (List Expr)} {row : List Expr}
    (hrow : row ∈ rows) (huse : use ∈ (Expr.rowTrace frames types row).uses) :
    use ∈ (Expr.rowsTrace frames types rows).uses := by
  induction hrow with
  | head => exact mem_append_left _ huse
  | tail _ _ ih => exact mem_append_right _ ih

theorem Assignment.mem_uses_traceList {type? : Assignment → Option SqlType} {as : List Assignment}
    {a : Assignment} (ha : a ∈ as) (hordinal : a.value.ordinal? = some ordinal) :
    Use.stored ordinal (type? a) ∈ (Assignment.traceList frames type? as).uses := by
  induction ha with
  | head => exact mem_append_left _ (mem_uses_storedTrace hordinal)
  | tail _ _ ih => exact mem_append_right _ ih

/-- What is stored is met as a use. -/
theorem Statement.Stores.mem_uses {statement : Statement} {input : AnalysisInput} {type : SqlType}
    (h : statement.Stores input ordinal type) :
    Use.stored ordinal (some type) ∈ (statement.trace input).uses := by
  cases h with
  | value hkind htable hsource hrow hvalue hordinal htype =>
    rw [Statement.trace, hkind]
    dsimp only
    rw [Insertion.trace, htable]
    dsimp only
    rw [hsource]
    exact mem_append_left _
      (mem_uses_rowsTrace hrow (mem_uses_rowTrace hvalue hordinal htype))
  | duplicate hkind htable ha hordinal htype =>
    rw [Statement.trace, hkind]
    dsimp only
    rw [Insertion.trace, htable, ← htype]
    exact mem_append_right _ (mem_uses_traceList ha hordinal)
  | update hkind ha hordinal htype =>
    rw [Statement.trace, hkind]
    dsimp only
    rw [Update.trace, ← htype]
    exact mem_append_left _
      (mem_append_right _ (mem_uses_traceList ha hordinal))

/-! ### What is met once, and the comparisons -/

open Trace

theorem Expr.follows_storedTrace (value : Expr) :
    (value.storedTrace frames type).Follows value.nodes := by
  unfold Expr.storedTrace
  split
  next ordinal hordinal =>
    obtain ⟨id, span, form⟩ := value
    have hform : form = .placeholder ordinal := by
      cases form <;> simp_all [Expr.ordinal?]
    subst hform
    refine ⟨⟨fun i => ?_, fun k => Nat.zero_le _⟩, .cons .nil rfl⟩
    simp [Trace.ordinals, Use.ordinal, Expr.nodes, ExprForm.nodes, Expr.ordinal?, count_cons,
      countP_cons]
  next => exact follows_trace value

theorem Expr.follows_passed (es : List Expr) : Trace.Follows {} (es.flatMap Expr.nodes) := by
  rw [← nodesList_eq]
  exact (@Expr.follows_traceList [] es).passed

theorem Expr.follows_rowTrace : ∀ (types : List (Option SqlType))
    (row : List Expr), (Expr.rowTrace frames types row).Follows (row.flatMap Expr.nodes)
  | [], row => follows_passed row
  | _ :: _, [] => .nil
  | _ :: types, value :: values =>
    (follows_storedTrace value).append (follows_rowTrace types values)

theorem Expr.follows_rowsTrace :
    ∀ rows : List (List Expr),
      (Expr.rowsTrace frames types rows).Follows (rows.flatMap fun row => row.flatMap Expr.nodes)
  | [] => .nil
  | row :: rest =>
    (follows_rowTrace types row).append (follows_rowsTrace rest)

theorem Assignment.follows_traceList {type? : Assignment → Option SqlType} :
    ∀ as : List Assignment,
      (Assignment.traceList frames type? as).Follows (as.flatMap Assignment.nodes)
  | [] => .nil
  | a :: rest =>
    (follows_storedTrace a.value).append (follows_traceList rest)

theorem InsertSource.follows_trace :
    ∀ source : InsertSource, (source.trace frames types).Follows source.nodes
  | .values rows => follows_rowsTrace rows
  | .query q => Query.follows_trace q

/-- The bound values and the column names that the walk over a statement meets are different nodes
of the statement, and a comparison in it is met, or its bound value is not. -/
theorem Statement.follows_trace (statement : Statement) (input : AnalysisInput) :
    (statement.trace input).Follows statement.kind.nodes := by
  unfold Statement.trace
  cases statement.kind with
  | select query => exact Query.follows_trace query
  | insert insertion =>
    dsimp only
    unfold Insertion.trace
    split
    next =>
      exact ((@InsertSource.follows_trace [] [] insertion.source).append
        (@Assignment.follows_traceList [] (fun _ => none) insertion.onDuplicate)).passed
    next table _ =>
      exact (InsertSource.follows_trace insertion.source).append
        (follows_traceList insertion.onDuplicate)
  | update update =>
    exact ((TableRef.follows_traceList update.tables).append
      (follows_traceList update.assignments)).append
      (follows_traceOption update.filter)
  | delete deletion => exact follows_traceOption deletion.filter

end SqlSignature
