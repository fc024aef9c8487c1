import Mathlib.Data.List.Perm.Basic
import Mathlib.Data.List.Flatten
import SqlSignature.Expr.Traversal
import SqlSignature.Statement
/-!
# SqlSignature.Proofs.TreeNodes

Every node that was built for a statement. `Expr.descendants` leaves out the sort keys and the
separator of a call, which are no operands; `Expr.nodes` has them.
-/

namespace SqlSignature

/-! ### All nodes -/

mutual

/-- The expression and all nodes below it. -/
def Expr.nodes : Expr → List Expr
  | .node id span form => .node id span form :: form.nodes

/-- The nodes below an expression of a form. -/
def ExprForm.nodes : ExprForm → List Expr
  | .literal _ | .column _ | .placeholder _ => []
  | .unary _ operand | .isNull operand _ | .isTruth operand _ _ => operand.nodes
  | .cast operand _ | .interval operand _ => operand.nodes
  | .binary _ left right => left.nodes ++ right.nodes
  | .inList operand list _ => operand.nodes ++ Expr.nodesList list
  | .inQuery operand query _ => operand.nodes ++ query.nodes
  | .between operand low high _ => operand.nodes ++ low.nodes ++ high.nodes
  | .like operand pattern escape _ => operand.nodes ++ pattern.nodes ++ Expr.nodesOption escape
  | .choice operand branches otherwise =>
    Expr.nodesOption operand ++ Branch.nodesList branches ++ Expr.nodesOption otherwise
  | .call _ args _ _ extras => Expr.nodesList args ++ Expr.nodesList extras
  | .existence query | .subquery query => query.nodes

def Expr.nodesList : List Expr → List Expr
  | [] => []
  | e :: rest => e.nodes ++ Expr.nodesList rest

def Expr.nodesOption : Option Expr → List Expr
  | none => []
  | some e => e.nodes

def Branch.nodesList : List Branch → List Expr
  | [] => []
  | ⟨condition, result⟩ :: rest => condition.nodes ++ result.nodes ++ Branch.nodesList rest

def Query.nodes : Query → List Expr
  | ⟨specs, _, orderBy, limit, _⟩ =>
    QuerySpec.nodesList specs ++ SortKey.nodesList orderBy ++ Limit.nodesOption limit

def Limit.nodesOption : Option Limit → List Expr
  | none => []
  | some ⟨count, offset⟩ => count.nodes ++ Expr.nodesOption offset

def SortKey.nodesList : List SortKey → List Expr
  | [] => []
  | ⟨expr, _⟩ :: rest => expr.nodes ++ SortKey.nodesList rest

def QuerySpec.nodesList : List QuerySpec → List Expr
  | [] => []
  | ⟨_, items, tables, filter, groupBy, having, _⟩ :: rest =>
    (SelectItem.nodesList items ++ TableRef.nodesList tables ++ Expr.nodesOption filter ++
      Expr.nodesList groupBy ++ Expr.nodesOption having) ++ QuerySpec.nodesList rest

def SelectItem.nodesList : List SelectItem → List Expr
  | [] => []
  | .expr value _ _ :: rest => value.nodes ++ SelectItem.nodesList rest
  | .all _ :: rest => SelectItem.nodesList rest
  | .allOf _ _ :: rest => SelectItem.nodesList rest

def TableRef.nodesList : List TableRef → List Expr
  | [] => []
  | ⟨factor, joins, _⟩ :: rest =>
    factor.nodes ++ Join.nodesList joins ++ TableRef.nodesList rest

def Join.nodesList : List Join → List Expr
  | [] => []
  | ⟨_, factor, constraint, _⟩ :: rest =>
    factor.nodes ++ constraint.nodes ++ Join.nodesList rest

def JoinConstraint.nodes : JoinConstraint → List Expr
  | .on condition => condition.nodes
  | .shared _ => []
  | .none => []

def TableFactor.nodes : TableFactor → List Expr
  | .table _ _ _ _ => []
  | .derived query _ _ => query.nodes

end

/-! ### The nodes of single parts -/

def Branch.nodes (b : Branch) : List Expr := b.condition.nodes ++ b.result.nodes

def SortKey.nodes (k : SortKey) : List Expr := k.expr.nodes

def Limit.nodes (l : Limit) : List Expr := l.count.nodes ++ Expr.nodesOption l.offset

def SelectItem.nodes : SelectItem → List Expr
  | .expr value _ _ => value.nodes
  | .all _ | .allOf _ _ => []

def Join.nodes (j : Join) : List Expr := j.factor.nodes ++ j.constraint.nodes

def TableRef.nodes (t : TableRef) : List Expr := t.factor.nodes ++ Join.nodesList t.joins

def QuerySpec.nodes (s : QuerySpec) : List Expr :=
  SelectItem.nodesList s.items ++ TableRef.nodesList s.tables ++ Expr.nodesOption s.filter ++
    Expr.nodesList s.groupBy ++ Expr.nodesOption s.having

def Assignment.nodes (a : Assignment) : List Expr := a.value.nodes

def InsertSource.nodes : InsertSource → List Expr
  | .values rows => rows.flatMap fun row => row.flatMap Expr.nodes
  | .query q => q.nodes

/-- The nodes of a statement. -/
def StatementKind.nodes : StatementKind → List Expr
  | .select q => q.nodes
  | .insert i => i.source.nodes ++ i.onDuplicate.flatMap Assignment.nodes
  | .update u =>
    TableRef.nodesList u.tables ++ u.assignments.flatMap Assignment.nodes ++
      Expr.nodesOption u.filter
  | .delete d => Expr.nodesOption d.filter

theorem QuerySpec.nodesList_cons (spec : QuerySpec) (rest : List QuerySpec) :
    nodesList (spec :: rest) = nodesList [spec] ++ nodesList rest := by
  obtain ⟨distinct, items, tables, filter, groupBy, having, span⟩ := spec
  simp only [nodesList, List.append_nil]

/-! ### Nodes that stand aside -/

/-- The nodes of the sort keys and the separator of a call. -/
def Expr.extraNodes (e : Expr) : List Expr :=
  match e.form with
  | .call _ _ _ _ extras => Expr.nodesList extras
  | _ => []

/-- Nodes, each followed by those that stand aside of it. -/
def Expr.withExtras (es : List Expr) : List Expr := es.flatMap fun e => e :: e.extraNodes

namespace Expr

theorem self_mem_nodes (e : Expr) : e ∈ e.nodes := by
  cases e
  exact List.mem_cons_self

@[simp] theorem withExtras_cons (e : Expr) (es : List Expr) :
    withExtras (e :: es) = e :: (e.extraNodes ++ withExtras es) := by
  simp [withExtras]

@[simp] theorem withExtras_append (es fs : List Expr) :
    withExtras (es ++ fs) = withExtras es ++ withExtras fs := by
  simp [withExtras]

theorem withExtras_perm (es : List Expr) : (withExtras es).Perm (es ++ es.flatMap extraNodes) := by
  induction es with
  | nil => rfl
  | cons e es ih =>
    rw [withExtras_cons, List.flatMap_cons, List.cons_append]
    refine List.Perm.cons e ?_
    calc e.extraNodes ++ withExtras es
        _ |>.Perm (e.extraNodes ++ (es ++ es.flatMap extraNodes)) := ih.append_left _
        _ |>.Perm (es ++ (e.extraNodes ++ es.flatMap extraNodes)) := List.perm_append_comm_assoc ..

end Expr

/-! ### Lists of parts -/

@[simp] theorem Expr.nodesList_eq (es : List Expr) : Expr.nodesList es = es.flatMap nodes := by
  induction es with
  | nil => rfl
  | cons e es ih => rw [Expr.nodesList, ih, List.flatMap_cons]

@[simp] theorem Expr.nodesOption_eq (o : Option Expr) :
    Expr.nodesOption o = o.toList.flatMap nodes := by
  cases o <;> simp [Expr.nodesOption]

@[simp] theorem Branch.nodesList_eq (bs : List Branch) :
    Branch.nodesList bs = bs.flatMap nodes := by
  induction bs with
  | nil => rfl
  | cons b bs ih => cases b; rw [Branch.nodesList, ih, List.flatMap_cons]; rfl

@[simp] theorem Limit.nodesOption_eq (o : Option Limit) :
    Limit.nodesOption o = o.toList.flatMap nodes := by
  rcases o with _ | ⟨count, offset⟩ <;> simp [Limit.nodesOption, Limit.nodes]

@[simp] theorem SortKey.nodesList_eq (keys : List SortKey) :
    SortKey.nodesList keys = keys.flatMap nodes := by
  induction keys with
  | nil => rfl
  | cons key keys ih => cases key; rw [SortKey.nodesList, ih, List.flatMap_cons]; rfl

@[simp] theorem SelectItem.nodesList_eq (items : List SelectItem) :
    SelectItem.nodesList items = items.flatMap nodes := by
  induction items with
  | nil => rfl
  | cons item items ih => cases item <;> simp [SelectItem.nodesList, SelectItem.nodes, ih]

@[simp] theorem Join.nodesList_eq (joins : List Join) :
    Join.nodesList joins = joins.flatMap nodes := by
  induction joins with
  | nil => rfl
  | cons join joins ih => cases join; rw [Join.nodesList, ih, List.flatMap_cons]; rfl

@[simp] theorem TableRef.nodesList_eq (tables : List TableRef) :
    TableRef.nodesList tables = tables.flatMap nodes := by
  induction tables with
  | nil => rfl
  | cons table tables ih => cases table; rw [TableRef.nodesList, ih, List.flatMap_cons]; rfl

@[simp] theorem QuerySpec.nodesList_eq (specs : List QuerySpec) :
    QuerySpec.nodesList specs = specs.flatMap nodes := by
  induction specs with
  | nil => rfl
  | cons spec specs ih => cases spec; rw [QuerySpec.nodesList, ih, List.flatMap_cons]; rfl

end SqlSignature
