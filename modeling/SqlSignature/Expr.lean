import SqlSignature.Literal
import SqlSignature.Operator
import SqlSignature.Span
/-!
# SqlSignature.Expr

Expressions and queries. Every expression node carries the span it was read from and a number,
given out in the order in which nodes are built, so that facts about nodes can be kept beside the
tree. Expressions hold queries and queries hold expressions, hence the one mutual block.
-/

namespace SqlSignature

/-- A column by name, possibly with its table and the schema of the table. -/
structure ColumnRef where
  schema : Option String
  table : Option String
  name : String
  deriving Repr, DecidableEq

/-- The parts of a column name with points between them. -/
def ColumnRef.display (c : ColumnRef) : String :=
  ".".intercalate (c.schema.toList ++ c.table.toList ++ [c.name])

/-- The kinds of joins. -/
inductive JoinKind where
  | inner | cross | left | right | full
  deriving Repr, DecidableEq

/-- Whether a join of the kind can pad a side with nulls. -/
def JoinKind.isOuter : JoinKind → Bool
  | left | right | full => true
  | inner | cross => false

mutual

/-- An expression: its number, its span and its form. -/
inductive Expr where
  | node (id : Nat) (span : Span) (form : ExprForm)

/-- The forms of expressions. -/
inductive ExprForm where
  | literal (value : Literal)
  | column (ref : ColumnRef)
  /-- The bound value with a position among the bound values of the statement. -/
  | placeholder (ordinal : Nat)
  | unary (op : UnaryOp) (operand : Expr)
  | binary (op : BinaryOp) (left right : Expr)
  | isNull (operand : Expr) (negated : Bool)
  | isTruth (operand : Expr) (value negated : Bool)
  | inList (operand : Expr) (list : List Expr) (negated : Bool)
  | inQuery (operand : Expr) (query : Query) (negated : Bool)
  | between (operand low high : Expr) (negated : Bool)
  | like (operand pattern : Expr) (escape : Option Expr) (negated : Bool)
  | choice (operand : Option Expr) (branches : List Branch) (otherwise : Option Expr)
  /-- A function call. `extras` holds the sort keys and the separator of an aggregate, which have
  numbers and ordinals but no bearing on the type of the call. -/
  | call (name : String) (args : List Expr) (distinct star : Bool) (extras : List Expr)
  | cast (operand : Expr) (target : SqlType)
  | interval (operand : Expr) (unit : String)
  | existence (query : Query)
  | subquery (query : Query)

/-- A branch of a choice. -/
structure Branch where
  condition : Expr
  result : Expr

/-- One or more specifications joined by unions, and the sorting and the limit of the whole. -/
structure Query where
  specs : List QuerySpec
  /-- For each specification after the first, whether it is joined without removing duplicates. -/
  unionAll : List Bool
  orderBy : List SortKey
  limit : Option Limit
  span : Span

/-- A select list with its tables, filter and grouping. -/
structure QuerySpec where
  distinct : Bool
  items : List SelectItem
  tables : List TableRef
  filter : Option Expr
  groupBy : List Expr
  having : Option Expr
  span : Span

/-- An item of a select list. -/
inductive SelectItem where
  /-- Every column of every table. -/
  | all (span : Span)
  /-- Every column of one table. -/
  | allOf (table : String) (span : Span)
  | expr (value : Expr) (label : Option String) (span : Span)

/-- A key to sort by. -/
structure SortKey where
  expr : Expr
  descending : Bool

/-- How many rows are asked for, and how many are passed over before them. -/
structure Limit where
  count : Expr
  offset : Option Expr

/-- A table followed by the tables that are joined to it. -/
structure TableRef where
  factor : TableFactor
  joins : List Join
  span : Span

/-- A joined table. The span starts at the join keyword. -/
structure Join where
  kind : JoinKind
  factor : TableFactor
  constraint : JoinConstraint
  span : Span

/-- What rows of the two sides of a join have to fulfil. -/
inductive JoinConstraint where
  | on (condition : Expr)
  /-- Equality of the columns with these names. -/
  | shared (columns : List String)
  | none

/-- A table by name, or a query in place of a table. -/
inductive TableFactor where
  | table (schema : Option String) (name : String) (label : Option String) (span : Span)
  | derived (query : Query) (label : String) (span : Span)

end

/-! ### Parts -/

namespace Expr

/-- The number of a node. -/
def id : Expr → Nat
  | node id _ _ => id

def span : Expr → Span
  | node _ span _ => span

def form : Expr → ExprForm
  | node _ _ form => form

@[simp] theorem id_node (i : Nat) (s : Span) (f : ExprForm) : (node i s f).id = i := rfl
@[simp] theorem span_node (i : Nat) (s : Span) (f : ExprForm) : (node i s f).span = s := rfl
@[simp] theorem form_node (i : Nat) (s : Span) (f : ExprForm) : (node i s f).form = f := rfl

/-- The text that a node was read from. -/
def text (e : Expr) (source : String) : String := e.span.text source

/-- The ordinal of a placeholder. -/
def ordinal? (e : Expr) : Option Nat :=
  match e.form with
  | .placeholder ordinal => some ordinal
  | _ => none

end Expr

namespace TableFactor

/-- The name by which the query speaks of a table. -/
def visibleName : TableFactor → String
  | table _ name label _ => label.getD name
  | derived _ label _ => label

def span : TableFactor → Span
  | table _ _ _ span => span
  | derived _ _ span => span

end TableFactor

def SelectItem.span : SelectItem → Span
  | all span => span
  | allOf _ span => span
  | expr _ _ span => span

/-- Whether a query has several specifications. -/
def Query.isUnion (q : Query) : Bool := decide (1 < q.specs.length)

end SqlSignature
