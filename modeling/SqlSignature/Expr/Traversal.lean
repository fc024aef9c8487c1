import SqlSignature.Expr
/-!
# SqlSignature.Expr.Traversal

The parts of expressions: direct operands, all nodes below, bound values, columns, and the
conjuncts of a predicate. `Expr.descendants` also goes into the queries inside an expression, where
later clauses come before earlier ones; `Expr.columns` stays outside of them.
-/

namespace SqlSignature

/-- The direct operands of an expression, without the inside of queries. -/
def ExprForm.children : ExprForm → List Expr
  | .literal _ | .column _ | .placeholder _ => []
  | .unary _ operand | .isNull operand _ | .isTruth operand _ _ => [operand]
  | .cast operand _ | .interval operand _ | .inQuery operand _ _ => [operand]
  | .binary _ left right => [left, right]
  | .inList operand list _ => operand :: list
  | .between operand low high _ => [operand, low, high]
  | .like operand pattern escape _ => operand :: pattern :: escape.toList
  | .choice operand branches otherwise =>
    operand.toList ++ branches.flatMap (fun b => [b.condition, b.result]) ++ otherwise.toList
  | .call _ args _ _ _ => args
  | .existence _ | .subquery _ => []

/-- The direct operands of an expression. -/
def Expr.children (e : Expr) : List Expr := e.form.children

/-! ### All nodes below an expression -/

mutual

/-- The expression and all nodes below it: operands in order, each before its own operands, and
the inside of a query after the operands. -/
def Expr.descendants : Expr → List Expr
  | .node id span form => .node id span form :: form.descendants

/-- The nodes below an expression of a form. -/
def ExprForm.descendants : ExprForm → List Expr
  | .literal _ | .column _ | .placeholder _ => []
  | .unary _ operand | .isNull operand _ | .isTruth operand _ _ => operand.descendants
  | .cast operand _ | .interval operand _ => operand.descendants
  | .binary _ left right => left.descendants ++ right.descendants
  | .inList operand list _ => operand.descendants ++ Expr.descendantsList list
  | .inQuery operand query _ => operand.descendants ++ query.descendants
  | .between operand low high _ => operand.descendants ++ low.descendants ++ high.descendants
  | .like operand pattern escape _ =>
    operand.descendants ++ pattern.descendants ++ Expr.descendantsOption escape
  | .choice operand branches otherwise =>
    Expr.descendantsOption operand ++ Branch.descendantsList branches ++
      Expr.descendantsOption otherwise
  | .call _ args _ _ _ => Expr.descendantsList args
  | .existence query | .subquery query => query.descendants

def Expr.descendantsList : List Expr → List Expr
  | [] => []
  | e :: rest => e.descendants ++ Expr.descendantsList rest

def Expr.descendantsOption : Option Expr → List Expr
  | none => []
  | some e => e.descendants

def Branch.descendantsList : List Branch → List Expr
  | [] => []
  | ⟨condition, result⟩ :: rest =>
    condition.descendants ++ result.descendants ++ Branch.descendantsList rest

/-- The nodes of a query, its last clause first. -/
def Query.descendants : Query → List Expr
  | ⟨specs, _, orderBy, limit, _⟩ =>
    Limit.descendantsOption limit ++ SortKey.descendantsList orderBy ++
      QuerySpec.descendantsList specs

def Limit.descendantsOption : Option Limit → List Expr
  | none => []
  | some ⟨count, offset⟩ => Expr.descendantsOption offset ++ count.descendants

def SortKey.descendantsList : List SortKey → List Expr
  | [] => []
  | ⟨expr, _⟩ :: rest => SortKey.descendantsList rest ++ expr.descendants

def QuerySpec.descendantsList : List QuerySpec → List Expr
  | [] => []
  | ⟨_, items, tables, filter, groupBy, having, _⟩ :: rest =>
    QuerySpec.descendantsList rest ++ Expr.descendantsOption having ++
      Expr.descendantsListBack groupBy ++ Expr.descendantsOption filter ++
      TableRef.descendantsList tables ++ SelectItem.descendantsList items

/-- The nodes of several expressions, those of the last first. -/
def Expr.descendantsListBack : List Expr → List Expr
  | [] => []
  | e :: rest => Expr.descendantsListBack rest ++ e.descendants

def SelectItem.descendantsList : List SelectItem → List Expr
  | [] => []
  | .expr value _ _ :: rest => SelectItem.descendantsList rest ++ value.descendants
  | .all _ :: rest => SelectItem.descendantsList rest
  | .allOf _ _ :: rest => SelectItem.descendantsList rest

def TableRef.descendantsList : List TableRef → List Expr
  | [] => []
  | ⟨factor, joins, _⟩ :: rest =>
    TableRef.descendantsList rest ++ Join.conditionDescendants joins ++
      Join.factorDescendants joins ++ factor.descendants

/-- The nodes of the conditions of joins. -/
def Join.conditionDescendants : List Join → List Expr
  | [] => []
  | ⟨_, _, .on condition, _⟩ :: rest => Join.conditionDescendants rest ++ condition.descendants
  | ⟨_, _, .shared _, _⟩ :: rest => Join.conditionDescendants rest
  | ⟨_, _, .none, _⟩ :: rest => Join.conditionDescendants rest

/-- The nodes of the queries that are joined. -/
def Join.factorDescendants : List Join → List Expr
  | [] => []
  | ⟨_, factor, _, _⟩ :: rest => Join.factorDescendants rest ++ factor.descendants

def TableFactor.descendants : TableFactor → List Expr
  | .table _ _ _ _ => []
  | .derived query _ _ => query.descendants

end

/-- The ordinals of the bound values below an expression, in ascending order. -/
def Expr.ordinals (e : Expr) : List Nat := (e.descendants.filterMap Expr.ordinal?).mergeSort

/-! ### Columns outside of queries -/

mutual

/-- The columns that an expression names, from left to right. -/
def Expr.columns : Expr → List Expr
  | .node id span (.column ref) => [.node id span (.column ref)]
  | .node _ _ form => form.columns

/-- The columns that the operands of a form name. -/
def ExprForm.columns : ExprForm → List Expr
  | .literal _ | .column _ | .placeholder _ => []
  | .unary _ operand | .isNull operand _ | .isTruth operand _ _ => operand.columns
  | .cast operand _ | .interval operand _ | .inQuery operand _ _ => operand.columns
  | .binary _ left right => left.columns ++ right.columns
  | .inList operand list _ => operand.columns ++ Expr.columnsList list
  | .between operand low high _ => operand.columns ++ low.columns ++ high.columns
  | .like operand pattern escape _ =>
    operand.columns ++ pattern.columns ++ Expr.columnsOption escape
  | .choice operand branches otherwise =>
    Expr.columnsOption operand ++ Branch.columnsList branches ++ Expr.columnsOption otherwise
  | .call _ args _ _ _ => Expr.columnsList args
  | .existence _ | .subquery _ => []

def Expr.columnsList : List Expr → List Expr
  | [] => []
  | e :: rest => e.columns ++ Expr.columnsList rest

def Expr.columnsOption : Option Expr → List Expr
  | none => []
  | some e => e.columns

def Branch.columnsList : List Branch → List Expr
  | [] => []
  | ⟨condition, result⟩ :: rest => condition.columns ++ result.columns ++ Branch.columnsList rest

end

/-! ### Conjuncts -/

/-- The parts of a predicate between its outermost `AND`s. -/
def Expr.conjuncts : Expr → List Expr
  | .node _ _ (.binary .and left right) => left.conjuncts ++ right.conjuncts
  | e => [e]

/-- A predicate has some conjunct. -/
theorem Expr.conjuncts_ne_nil (e : Expr) : e.conjuncts ≠ [] := by
  fun_induction Expr.conjuncts e with
  | case1 id span left right ihleft ihright => exact List.append_ne_nil_of_left_ne_nil ihleft _
  | case2 e hne => exact List.cons_ne_nil _ _

end SqlSignature
