import Mathlib.Data.List.Perm.Subperm
import Mathlib.Logic.Relation
import SqlSignature.Proofs.TreeNodes
/-!
# SqlSignature.Proofs.NodeReferences

What a node refers to: its operands, and the expressions of the clauses of a query inside it, those
of queries in place of tables included. Every node of an expression but its first one is referred to
once, or stands aside of a call (`Expr.nodes_perm_parts`), and the descendants of an expression are
what references lead to (`Expr.mem_descendants_iff`): with what stands aside, they are the nodes
(`Expr.nodes_perm`).
-/

open List

namespace SqlSignature

/-! ### The expressions of a query -/

def SelectItem.expressions : SelectItem → List Expr
  | .expr value _ _ => [value]
  | .all _ | .allOf _ _ => []

def Limit.expressions (l : Limit) : List Expr := l.count :: l.offset.toList

/-- The condition of a join. -/
def Join.conditions (j : Join) : List Expr :=
  match j.constraint with
  | .on condition => [condition]
  | .shared _ | .none => []

mutual

/-- The expressions of all clauses of a query, in order. -/
def Query.expressions : Query → List Expr
  | ⟨specs, _, orderBy, limit, _⟩ =>
    QuerySpec.expressionsList specs ++ orderBy.map SortKey.expr ++
      limit.toList.flatMap Limit.expressions

def QuerySpec.expressionsList : List QuerySpec → List Expr
  | [] => []
  | ⟨_, items, tables, filter, groupBy, having, _⟩ :: rest =>
    items.flatMap SelectItem.expressions ++ TableRef.expressionsList tables ++ filter.toList ++
      groupBy ++ having.toList ++ QuerySpec.expressionsList rest

/-- The expressions of tables: of the queries among the tables, then of the conditions of joins. -/
def TableRef.expressionsList : List TableRef → List Expr
  | [] => []
  | ⟨factor, joins, _⟩ :: rest =>
    factor.expressions ++ Join.factorExpressions joins ++ joins.flatMap Join.conditions ++
      TableRef.expressionsList rest

def Join.factorExpressions : List Join → List Expr
  | [] => []
  | ⟨_, factor, _, _⟩ :: rest => factor.expressions ++ Join.factorExpressions rest

def TableFactor.expressions : TableFactor → List Expr
  | .table _ _ _ _ => []
  | .derived query _ _ => query.expressions

end

def InsertSource.expressions : InsertSource → List Expr
  | .values rows => rows.flatten
  | .query q => q.expressions

/-- The expressions of all clauses of a statement. -/
def StatementKind.expressions : StatementKind → List Expr
  | .select q => q.expressions
  | .insert i => i.source.expressions ++ i.onDuplicate.map Assignment.value
  | .update u =>
    TableRef.expressionsList u.tables ++ u.assignments.map Assignment.value ++ u.filter.toList
  | .delete d => d.filter.toList

/-! ### References -/

/-- The query inside a form. -/
def ExprForm.query? : ExprForm → Option Query
  | .inQuery _ query _ | .existence query | .subquery query => some query
  | _ => none

/-- What stands aside of a call: its sort keys and its separator. -/
def ExprForm.extras : ExprForm → List Expr
  | .call _ _ _ _ extras => extras
  | _ => []

namespace Expr

/-- The expressions of the query inside a node. -/
def inner (e : Expr) : List Expr := e.form.query?.toList.flatMap Query.expressions

/-- The nodes that a node refers to. -/
def references (e : Expr) : List Expr := e.children ++ e.inner

/-- The nodes right below a node. -/
def parts (e : Expr) : List Expr := e.references ++ e.form.extras

/-- The references of a node in the order in which they are gone through: a query from its end. -/
def pending (e : Expr) : List Expr := e.children ++ e.inner.reverse

theorem mem_pending {e n : Expr} : n ∈ e.pending ↔ n ∈ e.references := by
  simp [pending, references]

end Expr

/-! ### The nodes of a query are those of its expressions -/

theorem SelectItem.nodes_eq (item : SelectItem) :
    item.nodes = item.expressions.flatMap Expr.nodes := by
  cases item <;> simp [SelectItem.nodes, SelectItem.expressions]

theorem SelectItem.nodesList_eq_expressions (items : List SelectItem) :
    SelectItem.nodesList items = (items.flatMap SelectItem.expressions).flatMap Expr.nodes := by
  rw [SelectItem.nodesList_eq, flatMap_assoc]
  exact flatMap_congr fun item _ => item.nodes_eq

theorem SortKey.nodesList_eq_expressions (keys : List SortKey) :
    SortKey.nodesList keys = (keys.map SortKey.expr).flatMap Expr.nodes := by
  rw [SortKey.nodesList_eq, flatMap_map]
  rfl

theorem Limit.nodesOption_eq_expressions (limit : Option Limit) :
    Limit.nodesOption limit = (limit.toList.flatMap Limit.expressions).flatMap Expr.nodes := by
  rw [Limit.nodesOption_eq, flatMap_assoc]
  exact flatMap_congr fun l _ => by simp [Limit.nodes, Limit.expressions]

mutual

theorem Query.nodes_perm_expressions : (q : Query) → q.nodes.Perm (q.expressions.flatMap Expr.nodes)
  | ⟨specs, _, orderBy, limit, _⟩ => by
    rw [Query.nodes, Query.expressions, flatMap_append, flatMap_append,
      SortKey.nodesList_eq_expressions, Limit.nodesOption_eq_expressions]
    exact ((QuerySpec.nodes_perm_expressions specs).append_right _).append_right _

theorem QuerySpec.nodes_perm_expressions : (specs : List QuerySpec) →
    (QuerySpec.nodesList specs).Perm ((QuerySpec.expressionsList specs).flatMap Expr.nodes)
  | [] => .refl _
  | ⟨_, items, tables, filter, groupBy, having, _⟩ :: rest => by
    rw [QuerySpec.nodesList, QuerySpec.expressionsList]
    simp only [flatMap_append]
    rw [SelectItem.nodesList_eq_expressions, Expr.nodesOption_eq, Expr.nodesOption_eq,
      Expr.nodesList_eq]
    exact (((((TableRef.nodes_perm_expressions tables).append_left _).append_right _).append_right
      _).append_right _).append (QuerySpec.nodes_perm_expressions rest)

theorem TableRef.nodes_perm_expressions : (tables : List TableRef) →
    (TableRef.nodesList tables).Perm ((TableRef.expressionsList tables).flatMap Expr.nodes)
  | [] => .refl _
  | ⟨factor, joins, _⟩ :: rest => by
    rw [TableRef.nodesList, TableRef.expressionsList]
    simp only [flatMap_append]
    refine .append ?_ (TableRef.nodes_perm_expressions rest)
    rw [append_assoc]
    exact factor.nodes_perm_expressions.append (Join.nodes_perm_expressions joins)

/-- The nodes of joins are those of the queries that are joined and of the conditions. -/
theorem Join.nodes_perm_expressions : (joins : List Join) →
    (Join.nodesList joins).Perm ((Join.factorExpressions joins).flatMap Expr.nodes ++
      (joins.flatMap Join.conditions).flatMap Expr.nodes)
  | [] => .refl _
  | ⟨_, factor, constraint, _⟩ :: rest => by
    have hconstraint : constraint.nodes =
        (Join.conditions ⟨‹_›, factor, constraint, ‹_›⟩).flatMap Expr.nodes := by
      cases constraint <;> simp [JoinConstraint.nodes, Join.conditions]
    rw [Join.nodesList, Join.factorExpressions, flatMap_cons, flatMap_append,
      flatMap_append, hconstraint]
    calc factor.nodes ++ _ ++ Join.nodesList rest
      _ |>.Perm (factor.expressions.flatMap Expr.nodes ++ _ ++
            ((Join.factorExpressions rest).flatMap Expr.nodes ++
              (rest.flatMap Join.conditions).flatMap Expr.nodes)) :=
          (factor.nodes_perm_expressions.append_right _).append (Join.nodes_perm_expressions rest)
      _ |>.Perm _ := by
          simp only [append_assoc]
          exact (perm_append_comm_assoc ..).append_left _

theorem TableFactor.nodes_perm_expressions : (factor : TableFactor) →
    factor.nodes.Perm (factor.expressions.flatMap Expr.nodes)
  | .table _ _ _ _ => .refl _
  | .derived query _ _ => query.nodes_perm_expressions

end

theorem StatementKind.nodes_perm_expressions (kind : StatementKind) :
    kind.nodes.Perm (kind.expressions.flatMap Expr.nodes) := by
  have hassignments : ∀ assignments : List Assignment,
      assignments.flatMap Assignment.nodes =
        (assignments.map Assignment.value).flatMap Expr.nodes :=
    fun assignments => by rw [flatMap_map]; rfl
  cases kind with
  | select q => exact q.nodes_perm_expressions
  | insert i =>
    rw [StatementKind.nodes, StatementKind.expressions, flatMap_append, hassignments]
    refine .append_right _ ?_
    cases i.source with
    | values rows =>
      refine .of_eq ?_
      rw [InsertSource.nodes, InsertSource.expressions, ← flatMap_id, flatMap_assoc]
      rfl
    | query q => exact q.nodes_perm_expressions
  | update u =>
    rw [StatementKind.nodes, StatementKind.expressions, flatMap_append, flatMap_append,
      hassignments, Expr.nodesOption_eq]
    exact ((TableRef.nodes_perm_expressions u.tables).append_right _).append_right _
  | delete d => exact .of_eq (Expr.nodesOption_eq _)

/-! ### The nodes below a node -/

theorem ExprForm.nodes_perm_parts (id : Nat) (span : Span) (form : ExprForm) :
    form.nodes.Perm ((Expr.node id span form).parts.flatMap Expr.nodes) := by
  simp only [Expr.parts, Expr.references, Expr.children, Expr.inner, Expr.form_node]
  cases form with
  | inQuery operand query negated =>
    simpa [ExprForm.nodes, ExprForm.children, ExprForm.query?, ExprForm.extras] using
      query.nodes_perm_expressions.append_left operand.nodes
  | existence query | subquery query =>
    simpa [ExprForm.nodes, ExprForm.children, ExprForm.query?, ExprForm.extras] using
      query.nodes_perm_expressions
  | choice operand branches otherwise =>
    have hbranch : Branch.nodes = fun b => b.condition.nodes ++ b.result.nodes := rfl
    refine .of_eq ?_
    simp [ExprForm.nodes, ExprForm.children, ExprForm.query?, ExprForm.extras, flatMap_assoc,
      hbranch]
  | _ =>
    exact .of_eq (by simp [ExprForm.nodes, ExprForm.children, ExprForm.query?, ExprForm.extras])

namespace Expr

theorem nodes_perm_cons (e : Expr) : e.nodes.Perm (e :: e.parts.flatMap nodes) := by
  obtain ⟨id, span, form⟩ := e
  exact (form.nodes_perm_parts id span).cons _

/-- What holds of an expression if it holds of the nodes right below it holds of all expressions. -/
theorem parts_induction {motive : Expr → Prop} (step : ∀ e, (∀ p ∈ e.parts, motive p) → motive e)
    (e : Expr) : motive e := by
  induction hsize : e.nodes.length using Nat.strongRecOn generalizing e with
  | ind size ih =>
    refine step e fun p hp => ih p.nodes.length ?_ p rfl
    have hlength := e.nodes_perm_cons.length_eq
    have hle : p.nodes.length ≤ (e.parts.flatMap nodes).length :=
      (sublist_flatten_of_mem (mem_map_of_mem hp)).length_le
    rw [length_cons] at hlength
    omega

/-- Nodes that are parts of the nodes below expressions, for several expressions at once. -/
theorem perm_parts_of_forall {es : List Expr}
    (h : ∀ e ∈ es, e.nodes.Perm (e :: e.nodes.flatMap parts)) :
    (es.flatMap nodes).Perm (es ++ (es.flatMap nodes).flatMap parts) := by
  induction es with
  | nil => exact .refl _
  | cons e es ih =>
    have hfirst := h e mem_cons_self
    have hothers := ih fun e he => h e (mem_cons_of_mem _ he)
    simp only [flatMap_cons, flatMap_append, cons_append]
    calc e.nodes ++ es.flatMap nodes
      _ |>.Perm (e :: e.nodes.flatMap parts ++ (es ++ (es.flatMap nodes).flatMap parts)) :=
          hfirst.append hothers
      _ |>.Perm (e :: (es ++ (e.nodes.flatMap parts ++ (es.flatMap nodes).flatMap parts))) :=
          (perm_append_comm_assoc ..).cons e

theorem mem_form_nodes_of_mem_parts {e p : Expr} (h : p ∈ e.parts) : p ∈ e.form.nodes := by
  obtain ⟨id, span, form⟩ := e
  refine (form.nodes_perm_parts id span).mem_iff.2 (mem_flatMap.2 ⟨p, h, ?_⟩)
  exact p.self_mem_nodes

/-- A node is the first one or a part of a node, once. -/
theorem nodes_perm_parts (e : Expr) : e.nodes.Perm (e :: e.nodes.flatMap parts) := by
  induction e using parts_induction with
  | step e ih =>
    have hparts : (e.parts.flatMap nodes).Perm (e.parts ++ (e.parts.flatMap nodes).flatMap parts) :=
      perm_parts_of_forall ih
    have hflat : (e.nodes.flatMap parts).Perm (e.parts ++ (e.parts.flatMap nodes).flatMap parts) :=
      e.nodes_perm_cons.flatMap_right _
    exact e.nodes_perm_cons.trans ((hparts.trans hflat.symm).cons e)

/-- A node below a node is a node with all that is below it. -/
theorem nodes_subperm {e n : Expr} (h : n ∈ e.nodes) : n.nodes.Subperm e.nodes := by
  induction e using parts_induction with
  | step e ih =>
    rcases mem_cons.1 (e.nodes_perm_cons.mem_iff.1 h) with rfl | hbelow
    · exact .refl _
    · obtain ⟨p, hp, hn⟩ := mem_flatMap.1 hbelow
      have hpart : p.nodes.Subperm (e.parts.flatMap nodes) :=
        (sublist_flatten_of_mem (mem_map_of_mem hp)).subperm
      have hparts : (e.parts.flatMap nodes).Subperm e.nodes :=
        (sublist_cons_self ..).subperm.trans e.nodes_perm_cons.symm.subperm
      exact (ih p hp hn).trans (hpart.trans hparts)

end Expr

/-- The nodes of a statement are the expressions of its clauses and the parts of its nodes. -/
theorem StatementKind.nodes_perm_parts (kind : StatementKind) :
    kind.nodes.Perm (kind.expressions ++ kind.nodes.flatMap Expr.parts) :=
  kind.nodes_perm_expressions.trans <|
    (Expr.perm_parts_of_forall fun e _ => e.nodes_perm_parts).trans <|
      (kind.nodes_perm_expressions.symm.flatMap_right _).append_left _

/-! ### Descendants -/

theorem Expr.descendantsList_eq (es : List Expr) :
    Expr.descendantsList es = es.flatMap Expr.descendants := by
  induction es with
  | nil => rfl
  | cons e es ih => rw [Expr.descendantsList, ih, flatMap_cons]

theorem Expr.descendantsListBack_eq (es : List Expr) :
    Expr.descendantsListBack es = es.reverse.flatMap Expr.descendants := by
  induction es with
  | nil => rfl
  | cons e es ih => simp [Expr.descendantsListBack, ih]

theorem Expr.descendantsOption_eq (o : Option Expr) :
    Expr.descendantsOption o = o.toList.flatMap Expr.descendants := by
  cases o <;> simp [Expr.descendantsOption]

theorem Branch.descendantsList_eq (bs : List Branch) :
    Branch.descendantsList bs =
      (bs.flatMap fun b => [b.condition, b.result]).flatMap Expr.descendants := by
  induction bs with
  | nil => rfl
  | cons b bs ih =>
    obtain ⟨condition, result⟩ := b
    simp [Branch.descendantsList, ih]

theorem SortKey.descendantsList_eq (keys : List SortKey) :
    SortKey.descendantsList keys = (keys.map SortKey.expr).reverse.flatMap Expr.descendants := by
  induction keys with
  | nil => rfl
  | cons key keys ih =>
    obtain ⟨expr, _⟩ := key
    simp [SortKey.descendantsList, ih]

theorem Limit.descendantsOption_eq (limit : Option Limit) :
    Limit.descendantsOption limit =
      (limit.toList.flatMap Limit.expressions).reverse.flatMap Expr.descendants := by
  rcases limit with _ | ⟨count, _ | offset⟩ <;>
    simp [Limit.descendantsOption, Limit.expressions, Expr.descendantsOption]

theorem SelectItem.descendantsList_eq (items : List SelectItem) :
    SelectItem.descendantsList items =
      (items.flatMap SelectItem.expressions).reverse.flatMap Expr.descendants := by
  induction items with
  | nil => rfl
  | cons item items ih =>
    cases item <;> simp [SelectItem.descendantsList, SelectItem.expressions, ih]

theorem Join.conditionDescendants_eq (joins : List Join) :
    Join.conditionDescendants joins =
      (joins.flatMap Join.conditions).reverse.flatMap Expr.descendants := by
  induction joins with
  | nil => rfl
  | cons join joins ih =>
    rcases join with ⟨_, _, _ | _ | _, _⟩ <;>
      simp [Join.conditionDescendants, Join.conditions, ih]

mutual

theorem Query.descendants_eq : (q : Query) →
    q.descendants = q.expressions.reverse.flatMap Expr.descendants
  | ⟨specs, _, orderBy, limit, _⟩ => by
    rw [Query.descendants, Query.expressions]
    simp only [reverse_append, flatMap_append]
    rw [← QuerySpec.descendantsList_eq specs, ← SortKey.descendantsList_eq,
      ← Limit.descendantsOption_eq, append_assoc]

theorem QuerySpec.descendantsList_eq : (specs : List QuerySpec) →
    QuerySpec.descendantsList specs =
      (QuerySpec.expressionsList specs).reverse.flatMap Expr.descendants
  | [] => rfl
  | ⟨_, items, tables, filter, groupBy, having, _⟩ :: rest => by
    rw [QuerySpec.descendantsList, QuerySpec.expressionsList]
    simp only [reverse_append, flatMap_append]
    rw [← QuerySpec.descendantsList_eq rest, ← TableRef.descendantsList_eq tables,
      ← SelectItem.descendantsList_eq, Expr.descendantsListBack_eq, Expr.descendantsOption_eq,
      Expr.descendantsOption_eq]
    cases filter <;> cases having <;> simp only [Option.toList, reverse_singleton,
      reverse_nil, append_assoc]

theorem TableRef.descendantsList_eq : (tables : List TableRef) →
    TableRef.descendantsList tables =
      (TableRef.expressionsList tables).reverse.flatMap Expr.descendants
  | [] => rfl
  | ⟨factor, joins, _⟩ :: rest => by
    rw [TableRef.descendantsList, TableRef.expressionsList]
    simp only [reverse_append, flatMap_append]
    rw [← TableRef.descendantsList_eq rest, ← factor.descendants_eq,
      ← Join.factorDescendants_eq joins, ← Join.conditionDescendants_eq]
    simp only [append_assoc]

theorem Join.factorDescendants_eq : (joins : List Join) →
    Join.factorDescendants joins = (Join.factorExpressions joins).reverse.flatMap Expr.descendants
  | [] => rfl
  | ⟨_, factor, _, _⟩ :: rest => by
    rw [Join.factorDescendants, Join.factorExpressions, reverse_append, flatMap_append,
      ← Join.factorDescendants_eq rest, ← factor.descendants_eq]

theorem TableFactor.descendants_eq : (factor : TableFactor) →
    factor.descendants = factor.expressions.reverse.flatMap Expr.descendants
  | .table _ _ _ _ => rfl
  | .derived query _ _ => query.descendants_eq

end

namespace Expr

/-- The nodes below a node, and after it those that its references lead to. -/
theorem descendants_eq (e : Expr) : e.descendants = e :: e.pending.flatMap descendants := by
  obtain ⟨id, span, form⟩ := e
  rw [Expr.descendants]
  refine congrArg _ ?_
  simp only [pending, children, inner, form_node]
  cases form <;>
    simp [ExprForm.descendants, ExprForm.children, ExprForm.query?, descendantsList_eq,
      descendantsOption_eq, Branch.descendantsList_eq, Query.descendants_eq]

/-- Whether references lead from one node to another. -/
def Reaches : Expr → Expr → Prop := Relation.ReflTransGen fun e n => n ∈ e.references

/-- The descendants of a node are the nodes that its references lead to. -/
theorem mem_descendants_iff {e n : Expr} : n ∈ e.descendants ↔ e.Reaches n := by
  constructor
  · induction e using parts_induction with
    | step e ih =>
      rw [descendants_eq, mem_cons, mem_flatMap]
      rintro (rfl | ⟨p, hp, hn⟩)
      · exact .refl
      · have href := mem_pending.1 hp
        exact .head href (ih p (mem_append_left _ href) hn)
  · intro h
    induction h using Relation.ReflTransGen.head_induction_on with
    | refl =>
      rw [descendants_eq]
      exact mem_cons_self
    | head href _ ih =>
      rw [descendants_eq]
      exact mem_cons_of_mem _ (mem_flatMap.2 ⟨_, mem_pending.2 href, ih⟩)

theorem withExtras_flatMap {α : Type} (f : α → List Expr) (as : List α) :
    withExtras (as.flatMap f) = as.flatMap fun a => withExtras (f a) :=
  flatMap_assoc

/-- The nodes of an expression are its descendants and what stands aside of these. -/
theorem nodes_perm (e : Expr) : e.nodes.Perm (withExtras e.descendants) := by
  induction e using parts_induction with
  | step e ih =>
    have hextras : e.form.extras.flatMap nodes = e.extraNodes := by
      obtain ⟨id, span, form⟩ := e
      cases form <;> simp [ExprForm.extras, extraNodes]
    have hpending : (e.references.flatMap nodes).Perm
        (e.pending.flatMap fun r => withExtras r.descendants) :=
      (List.Perm.flatMap_left _ fun r hr => ih r (mem_append_left _ hr)).trans
        ((e.inner.reverse_perm.symm.append_left _).flatMap_right _)
    rw [descendants_eq, withExtras_cons, withExtras_flatMap]
    refine e.nodes_perm_cons.trans (.cons e ?_)
    rw [parts, flatMap_append, hextras]
    exact perm_append_comm.trans (hpending.append_left _)

theorem query_nodes_perm (q : Query) : q.nodes.Perm (withExtras q.descendants) := by
  rw [Query.descendants_eq, withExtras_flatMap]
  exact q.nodes_perm_expressions.trans ((q.expressions.reverse_perm.symm.flatMap_right _).trans
    (List.Perm.flatMap_left _ fun e _ => e.nodes_perm))

theorem descendants_subperm (e : Expr) : e.descendants.Subperm e.nodes :=
  (sublist_append_left ..).subperm.trans
    (e.nodes_perm.trans (withExtras_perm _)).symm.subperm

/-! ### Columns and conjuncts -/

def isColumn : Expr → Bool
  | .node _ _ (.column _) => true
  | _ => false

theorem columnsList_eq (es : List Expr) : columnsList es = es.flatMap columns := by
  induction es with
  | nil => rfl
  | cons e es ih => rw [columnsList, ih, flatMap_cons]

theorem columnsOption_eq (o : Option Expr) : columnsOption o = o.toList.flatMap columns := by
  cases o <;> simp [columnsOption]

end Expr

theorem Branch.columnsList_eq (bs : List Branch) :
    Branch.columnsList bs = (bs.flatMap fun b => [b.condition, b.result]).flatMap Expr.columns := by
  induction bs with
  | nil => rfl
  | cons b bs ih =>
    obtain ⟨condition, result⟩ := b
    simp [Branch.columnsList, ih]

/-- The columns of an expression are the node itself, or those of its operands. -/
theorem Expr.columns_eq (e : Expr) :
    e.columns = [e].filter isColumn ++ e.children.flatMap columns := by
  obtain ⟨id, span, form⟩ := e
  simp only [children, form_node]
  cases form <;>
    simp [Expr.columns, ExprForm.columns, ExprForm.children, filter_singleton, isColumn,
      columnsList_eq, columnsOption_eq, Branch.columnsList_eq]

end SqlSignature
