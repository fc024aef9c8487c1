import SqlSignature.Analysis.Scope
import SqlSignature.Proofs.TreeNodes
/-!
# SqlSignature.Proofs.WalkTrace

What a walk over a tree meets, read off the tree alone: the column names, the bound values that are
compared with a column as they are, and all other bound values. A comparison comes with the tables
that are visible at its place, specification by specification, so that what a column name stands for
can be looked up in the catalog. Every bound value and every column name of the tree is met once at
most (`Expr.follows_trace`); those in the sort keys and the separator of a call are never met.
-/

open List

namespace SqlSignature

/-! ### Visible tables -/

/-- The tables of a specification, in the order in which they are numbered. -/
def TableRef.factors (tables : List TableRef) : List TableFactor :=
  tables.flatMap fun t => t.factor :: t.joins.map Join.factor

/-- The tables that are visible at a place: those of each specification around it, the outermost
first. -/
abbrev Frames := List (List TableFactor)

/-- The type that the catalog declares for a column, if it is a column of a table of the catalog and
not of a query in place of one. -/
def BoundColumn.declaredType (bound : BoundColumn) (catalog : Catalog) (frames : Frames) :
    Option SqlType :=
  match (frames[bound.scope]?).bind (·[bound.source]?) with
  | some (.table schema name _ _) =>
    ((catalog.table? schema name).bind (·.columns[bound.column]?)).map Column.type
  | _ => none

/-- The tables that sort keys can speak of: those of the only specification. -/
def QuerySpec.sortFrame : List QuerySpec → List TableFactor
  | [spec] => TableRef.factors spec.tables
  | _ => []

/-! ### Traces -/

/-- A bound value that is used for a column as it is. -/
inductive Use where
  /-- It is compared with a column name, a node with a number. -/
  | compared (ordinal column : Nat) (frames : Frames)
  /-- It is stored in a column, of a type if that is known. -/
  | stored (ordinal : Nat) (type : Option SqlType)

def Use.ordinal : Use → Nat
  | compared ordinal _ _ => ordinal
  | stored ordinal _ => ordinal

/-- What a walk meets. -/
structure Trace where
  /-- Bound values that are not used for a column as they are. -/
  loose : List Nat := []
  uses : List Use := []
  /-- The numbers of the nodes that are column names. -/
  columns : List Nat := []

namespace Trace

instance : Append Trace where
  append t u :=
    { loose := t.loose ++ u.loose, uses := t.uses ++ u.uses, columns := t.columns ++ u.columns }

@[simp] theorem loose_append (t u : Trace) : (t ++ u).loose = t.loose ++ u.loose := rfl

@[simp] theorem uses_append (t u : Trace) : (t ++ u).uses = t.uses ++ u.uses := rfl

@[simp] theorem columns_append (t u : Trace) : (t ++ u).columns = t.columns ++ u.columns := rfl

@[simp] theorem append_empty (t : Trace) : t ++ ({} : Trace) = t := by
  show Trace.mk (t.loose ++ []) (t.uses ++ []) (t.columns ++ []) = t
  rw [append_nil, append_nil, append_nil]

theorem append_assoc (t u v : Trace) : t ++ u ++ v = t ++ (u ++ v) := by
  show Trace.mk _ _ _ = Trace.mk _ _ _
  simp only [loose_append, uses_append, columns_append, List.append_assoc]

/-- All bound values that are met. -/
def ordinals (t : Trace) : List Nat := t.loose ++ t.uses.map Use.ordinal

end Trace

/-- The bound value and the column name of a comparison between the two. -/
def Expr.comparison? (op : BinaryOp) (left right : Expr) : Option (Nat × Nat) :=
  if op.isComparison then
    match left.form, right.form with
    | .placeholder ordinal, .column _ => some (ordinal, right.id)
    | .column _, .placeholder ordinal => some (ordinal, left.id)
    | _, _ => none
  else none

mutual

def Expr.trace (frames : Frames) : Expr → Trace
  | .node id _ form => form.trace frames id

def ExprForm.trace (frames : Frames) (id : Nat) : ExprForm → Trace
  | .literal _ => {}
  | .column _ => { columns := [id] }
  | .placeholder ordinal => { loose := [ordinal] }
  | .unary _ operand | .isNull operand _ | .isTruth operand _ _ => operand.trace frames
  | .cast operand _ | .interval operand _ => operand.trace frames
  | .binary op left right =>
    match Expr.comparison? op left right with
    | some (ordinal, column) => { uses := [.compared ordinal column frames], columns := [column] }
    | none => left.trace frames ++ right.trace frames
  | .inList operand list _ => operand.trace frames ++ Expr.traceList frames list
  | .inQuery operand query _ => operand.trace frames ++ query.trace frames
  | .between operand low high _ => operand.trace frames ++ low.trace frames ++ high.trace frames
  | .like operand pattern escape _ =>
    operand.trace frames ++ pattern.trace frames ++ Expr.traceOption frames escape
  | .choice operand branches otherwise =>
    Expr.traceOption frames operand ++ Branch.traceList frames branches ++
      Expr.traceOption frames otherwise
  | .call _ args _ _ _ => Expr.traceList frames args
  | .existence query | .subquery query => query.trace frames

def Expr.traceList (frames : Frames) : List Expr → Trace
  | [] => {}
  | e :: rest => e.trace frames ++ Expr.traceList frames rest

def Expr.traceOption (frames : Frames) : Option Expr → Trace
  | none => {}
  | some e => e.trace frames

def Branch.traceList (frames : Frames) : List Branch → Trace
  | [] => {}
  | ⟨condition, result⟩ :: rest =>
    condition.trace frames ++ result.trace frames ++ Branch.traceList frames rest

def Query.trace (frames : Frames) : Query → Trace
  | ⟨specs, _, orderBy, limit, _⟩ =>
    QuerySpec.traceList frames specs ++
      SortKey.traceList (frames ++ [QuerySpec.sortFrame specs]) orderBy ++
      Limit.traceOption frames limit

def Limit.traceOption (frames : Frames) : Option Limit → Trace
  | none => {}
  | some ⟨count, offset⟩ => count.trace frames ++ Expr.traceOption frames offset

def SortKey.traceList (frames : Frames) : List SortKey → Trace
  | [] => {}
  | ⟨expr, _⟩ :: rest => expr.trace frames ++ SortKey.traceList frames rest

def QuerySpec.traceList (frames : Frames) : List QuerySpec → Trace
  | [] => {}
  | ⟨_, items, tables, filter, groupBy, having, _⟩ :: rest =>
    let inner := frames ++ [TableRef.factors tables]
    (TableRef.traceList inner tables ++ Expr.traceOption inner filter ++
      SelectItem.traceList inner items ++ Expr.traceList inner groupBy ++
      Expr.traceOption inner having) ++ QuerySpec.traceList frames rest

def SelectItem.traceList (frames : Frames) : List SelectItem → Trace
  | [] => {}
  | .expr value _ _ :: rest => value.trace frames ++ SelectItem.traceList frames rest
  | .all _ :: rest => SelectItem.traceList frames rest
  | .allOf _ _ :: rest => SelectItem.traceList frames rest

def TableRef.traceList (frames : Frames) : List TableRef → Trace
  | [] => {}
  | ⟨factor, joins, _⟩ :: rest =>
    factor.trace ++ Join.traceList frames joins ++ TableRef.traceList frames rest

def Join.traceList (frames : Frames) : List Join → Trace
  | [] => {}
  | ⟨_, factor, constraint, _⟩ :: rest =>
    factor.trace ++ constraint.trace frames ++ Join.traceList frames rest

def JoinConstraint.trace (frames : Frames) : JoinConstraint → Trace
  | .on condition => condition.trace frames
  | .shared _ => {}
  | .none => {}

/-- A query in place of a table sees no tables but its own. -/
def TableFactor.trace : TableFactor → Trace
  | .table _ _ _ _ => {}
  | .derived query _ _ => query.trace []

end

/-! ### What is met once -/

/-- What a trace meets are different nodes of a tree. -/
structure Trace.Within (t : Trace) (nodes : List Expr) : Prop where
  ordinals : ∀ i, t.ordinals.count i ≤ nodes.countP fun e => e.ordinal? == some i
  columns : ∀ k, t.columns.count k ≤ nodes.countP fun e => e.id == k

namespace Trace.Within

variable {t u : Trace} {nodes more : List Expr}

theorem count_ordinals (t u : Trace) (i : Nat) :
    (t ++ u).ordinals.count i = t.ordinals.count i + u.ordinals.count i := by
  simp only [Trace.ordinals, loose_append, uses_append, map_append, count_append]
  omega

theorem append (ht : t.Within nodes) (hu : u.Within more) : (t ++ u).Within (nodes ++ more) := by
  refine ⟨?_, ?_⟩
  · intro i
    have htᵢ := ht.ordinals i
    have huᵢ := hu.ordinals i
    rw [count_ordinals, countP_append]
    omega
  · intro k
    have htₖ := ht.columns k
    have huₖ := hu.columns k
    rw [columns_append, count_append, countP_append]
    omega

theorem mono (ht : t.Within nodes)
    (h : ∀ p : Expr → Bool, nodes.countP p ≤ more.countP p) : t.Within more :=
  ⟨fun i => Nat.le_trans (ht.ordinals i) (h _), fun k => Nat.le_trans (ht.columns k) (h _)⟩

theorem cons (e : Expr) (ht : t.Within nodes) : t.Within (e :: nodes) :=
  ht.mono fun _ => by rw [countP_cons]; omega

theorem empty : ({} : Trace).Within nodes :=
  ⟨fun _ => Nat.zero_le _, fun _ => Nat.zero_le _⟩

end Trace.Within

open Trace

/-- A comparison of a bound value with a column name, either way round. -/
theorem Expr.comparison?_eq_some {op : BinaryOp} {left right : Expr} {ordinal column : Nat}
    (h : Expr.comparison? op left right = some (ordinal, column)) :
    op.isComparison = true ∧
      ((∃ ref, left.form = .placeholder ordinal ∧ right.form = .column ref ∧ column = right.id) ∨
        ∃ ref, left.form = .column ref ∧ right.form = .placeholder ordinal ∧ column = left.id) := by
  unfold Expr.comparison? at h
  split at h
  case isFalse => cases h
  case isTrue hop =>
    refine ⟨hop, ?_⟩
    split at h
    next ordinal' ref hleft hright =>
      cases h
      exact .inl ⟨ref, hleft, hright, rfl⟩
    next ref ordinal' hleft hright =>
      cases h
      exact .inr ⟨ref, hleft, hright, rfl⟩
    next => cases h

theorem Expr.nodes_comparison {op : BinaryOp} {left right : Expr} {ordinal column : Nat}
    (h : Expr.comparison? op left right = some (ordinal, column)) :
    ∃ id span span' ref, (left.nodes ++ right.nodes).Perm
      [.node id span (.placeholder ordinal), .node column span' (.column ref)] := by
  obtain ⟨leftId, leftSpan, leftForm⟩ := left
  obtain ⟨rightId, rightSpan, rightForm⟩ := right
  obtain ⟨-, ⟨ref, ⟨⟩, ⟨⟩, rfl⟩ | ⟨ref, ⟨⟩, ⟨⟩, rfl⟩⟩ := Expr.comparison?_eq_some h
  · exact ⟨leftId, leftSpan, rightSpan, ref, .refl _⟩
  · exact ⟨rightId, rightSpan, leftSpan, ref, .swap _ _ _⟩

/-- A comparison meets its two operands. -/
theorem Expr.within_comparison {op : BinaryOp} {left right : Expr} {ordinal column : Nat}
    (frames : Frames) (h : Expr.comparison? op left right = some (ordinal, column)) :
    Trace.Within { uses := [.compared ordinal column frames], columns := [column] }
      (left.nodes ++ right.nodes) := by
  obtain ⟨id, span, span', ref, hperm⟩ := Expr.nodes_comparison h
  refine ⟨fun i => ?_, fun k => ?_⟩
  · rw [hperm.countP_eq]
    simp [Trace.ordinals, Use.ordinal, Expr.ordinal?, count_cons, countP_cons]
  · rw [hperm.countP_eq]
    simp [count_cons, countP_cons]

/-! ### Comparisons that are met -/

/-- The bound value and the column name of a comparison between the two. -/
def Expr.boundComparison? (e : Expr) : Option (Nat × Nat) :=
  match e.form with
  | .binary op left right => Expr.comparison? op left right
  | _ => none

/-- Each comparison among nodes has its bound value among the nodes; if that is there once, the
comparison is met, or its bound value is not. -/
def Trace.Covers (t : Trace) (nodes : List Expr) : Prop :=
  ∀ n ∈ nodes, ∀ i column, n.boundComparison? = some (i, column) →
    1 ≤ nodes.countP (fun e => e.ordinal? == some i) ∧
      (nodes.countP (fun e => e.ordinal? == some i) ≤ 1 →
        (∃ frames, Use.compared i column frames ∈ t.uses) ∨ t.ordinals.count i = 0)

namespace Trace.Covers

variable {t u : Trace} {nodes more : List Expr}

theorem append (ht : t.Covers nodes) (hu : u.Covers more) (htw : t.Within nodes)
    (huw : u.Within more) : (t ++ u).Covers (nodes ++ more) := by
  intro n hn i column hcomparison
  have htᵢ := htw.ordinals i
  have huᵢ := huw.ordinals i
  rw [countP_append, Within.count_ordinals]
  rcases mem_append.1 hn with hn | hn
  · obtain ⟨hone, hmet⟩ := ht n hn i column hcomparison
    refine ⟨by omega, fun hle => ?_⟩
    rcases hmet (by omega) with ⟨frames, huse⟩ | hnone
    · exact .inl ⟨frames, mem_append_left _ huse⟩
    · exact .inr (by omega)
  · obtain ⟨hone, hmet⟩ := hu n hn i column hcomparison
    refine ⟨by omega, fun hle => ?_⟩
    rcases hmet (by omega) with ⟨frames, huse⟩ | hnone
    · exact .inl ⟨frames, mem_append_right _ huse⟩
    · exact .inr (by omega)

/-- Nodes in another order. -/
theorem perm (h : t.Covers nodes) (hperm : nodes.Perm more) : t.Covers more := by
  intro n hn i column hcomparison
  rw [← hperm.countP_eq]
  exact h n (hperm.mem_iff.2 hn) i column hcomparison

/-- A node that is no comparison of a bound value with a column name. -/
theorem cons {e : Expr} (h : t.Covers nodes) (he : e.boundComparison? = none) :
    t.Covers (e :: nodes) := by
  intro n hn i column hcomparison
  rcases mem_cons.1 hn with rfl | hn
  · rw [he] at hcomparison
    cases hcomparison
  · obtain ⟨hone, hmet⟩ := h n hn i column hcomparison
    rw [countP_cons]
    exact ⟨by omega, fun hle => hmet (by omega)⟩

theorem nil : t.Covers [] := fun _ hn => by cases hn

/-- Nodes that are passed over. -/
theorem passed (h : t.Covers nodes) : Trace.Covers {} nodes :=
  fun n hn i column hcomparison => ⟨(h n hn i column hcomparison).1, fun _ => .inr rfl⟩

/-- A comparison of a bound value with a column name. -/
theorem comparison {op : BinaryOp} {left right : Expr} {id ordinal column : Nat} {span : Span}
    (frames : Frames) (h : Expr.comparison? op left right = some (ordinal, column)) :
    Trace.Covers { uses := [.compared ordinal column frames], columns := [column] }
      (.node id span (.binary op left right) :: (left.nodes ++ right.nodes)) := by
  have hordinal := (Expr.within_comparison frames h).ordinals ordinal
  have hleaves : ∀ n ∈ left.nodes ++ right.nodes, n.boundComparison? = none := by
    obtain ⟨id, span, span', ref, hperm⟩ := Expr.nodes_comparison h
    intro n hn
    have hn := hperm.mem_iff.1 hn
    simp only [mem_cons, not_mem_nil, or_false] at hn
    rcases hn with rfl | rfl <;> rfl
  intro n hn i other hcomparison
  rcases mem_cons.1 hn with rfl | hn
  · rw [show Expr.boundComparison? (.node id span (.binary op left right)) =
      some (ordinal, column) from h] at hcomparison
    cases hcomparison
    refine ⟨?_, fun _ => .inl ⟨frames, mem_cons_self⟩⟩
    rw [countP_cons]
    simp only [Trace.ordinals, Use.ordinal, map_cons, map_nil, nil_append,
      count_singleton_self] at hordinal
    omega
  · rw [hleaves n hn] at hcomparison
    cases hcomparison

end Trace.Covers

/-- A trace follows nodes: what it meets are different ones of them, and it covers their
comparisons. -/
structure Trace.Follows (t : Trace) (nodes : List Expr) : Prop where
  within : t.Within nodes
  covers : t.Covers nodes

namespace Trace.Follows

variable {t u : Trace} {nodes more : List Expr}

theorem nil : Trace.Follows {} [] := ⟨.empty, .nil⟩

theorem append (ht : t.Follows nodes) (hu : u.Follows more) : (t ++ u).Follows (nodes ++ more) :=
  ⟨ht.within.append hu.within, ht.covers.append hu.covers ht.within hu.within⟩

theorem cons {e : Expr} (h : t.Follows nodes) (he : e.boundComparison? = none) :
    t.Follows (e :: nodes) :=
  ⟨h.within.cons e, h.covers.cons he⟩

theorem perm (h : t.Follows nodes) (hperm : nodes.Perm more) : t.Follows more :=
  ⟨h.within.mono fun p => Nat.le_of_eq (hperm.countP_eq p), h.covers.perm hperm⟩

/-- Nodes that are passed over. -/
theorem passed (h : t.Follows nodes) : Trace.Follows {} nodes := ⟨.empty, h.covers.passed⟩

end Trace.Follows

mutual

theorem Expr.follows_trace {frames : Frames} : (e : Expr) → (e.trace frames).Follows e.nodes
  | .node id span form => by
    rw [Expr.trace, Expr.nodes]
    exact ExprForm.follows_trace id span form

theorem ExprForm.follows_trace {frames : Frames} (id : Nat) (span : Span) : (form : ExprForm) →
    (form.trace frames id).Follows (.node id span form :: form.nodes)
  | .literal _ => .cons .nil rfl
  | .column _ => by
    refine ⟨⟨fun i => Nat.zero_le _, fun k => ?_⟩, .cons .nil rfl⟩
    simp [ExprForm.trace, ExprForm.nodes, count_cons, countP_cons]
  | .placeholder _ => by
    refine ⟨⟨fun i => ?_, fun k => Nat.zero_le _⟩, .cons .nil rfl⟩
    simp [ExprForm.trace, ExprForm.nodes, Trace.ordinals, Expr.ordinal?, count_cons,
      countP_cons]
  | .unary _ operand | .isNull operand _ | .isTruth operand _ _ | .cast operand _
  | .interval operand _ => .cons (Expr.follows_trace operand) rfl
  | .binary op left right => by
    rw [ExprForm.trace, ExprForm.nodes]
    split
    next hcomparison =>
      exact ⟨(Expr.within_comparison frames hcomparison).cons _, .comparison frames hcomparison⟩
    next hnone =>
      exact .cons ((Expr.follows_trace left).append (Expr.follows_trace right)) hnone
  | .inList operand list _ =>
    .cons ((Expr.follows_trace operand).append (Expr.follows_traceList list)) rfl
  | .inQuery operand query _ =>
    .cons ((Expr.follows_trace operand).append (Query.follows_trace query)) rfl
  | .between operand low high _ =>
    .cons (((Expr.follows_trace operand).append (Expr.follows_trace low)).append
      (Expr.follows_trace high)) rfl
  | .like operand pattern escape _ =>
    .cons (((Expr.follows_trace operand).append (Expr.follows_trace pattern)).append
      (Expr.follows_traceOption escape)) rfl
  | .choice operand branches otherwise =>
    .cons (((Expr.follows_traceOption operand).append
      (Branch.follows_traceList branches)).append
      (Expr.follows_traceOption otherwise)) rfl
  | .call _ args _ _ extras => by
    -- sort keys and the separator are passed over
    have hfollows := (@Expr.follows_traceList frames args).append
      (@Expr.follows_traceList frames extras).passed
    rw [Trace.append_empty] at hfollows
    exact .cons hfollows rfl
  | .existence query | .subquery query => .cons (Query.follows_trace query) rfl

theorem Expr.follows_traceList {frames : Frames} : (es : List Expr) →
    (Expr.traceList frames es).Follows (Expr.nodesList es)
  | [] => .nil
  | e :: rest => (Expr.follows_trace e).append (Expr.follows_traceList rest)

theorem Expr.follows_traceOption {frames : Frames} : (o : Option Expr) →
    (Expr.traceOption frames o).Follows (Expr.nodesOption o)
  | none => .nil
  | some e => Expr.follows_trace e

theorem Branch.follows_traceList {frames : Frames} : (bs : List Branch) →
    (Branch.traceList frames bs).Follows (Branch.nodesList bs)
  | [] => .nil
  | ⟨condition, result⟩ :: rest =>
    ((Expr.follows_trace condition).append (Expr.follows_trace result)).append
      (Branch.follows_traceList rest)

theorem Query.follows_trace {frames : Frames} : (q : Query) → (q.trace frames).Follows q.nodes
  | ⟨specs, _, orderBy, limit, _⟩ =>
    ((QuerySpec.follows_traceList specs).append (SortKey.follows_traceList orderBy)).append
      (Limit.follows_traceOption limit)

theorem Limit.follows_traceOption {frames : Frames} : (o : Option Limit) →
    (Limit.traceOption frames o).Follows (Limit.nodesOption o)
  | none => .nil
  | some ⟨count, offset⟩ =>
    (Expr.follows_trace count).append (Expr.follows_traceOption offset)

theorem SortKey.follows_traceList {frames : Frames} : (keys : List SortKey) →
    (SortKey.traceList frames keys).Follows (SortKey.nodesList keys)
  | [] => .nil
  | ⟨expr, _⟩ :: rest =>
    (Expr.follows_trace expr).append (SortKey.follows_traceList rest)

theorem QuerySpec.follows_traceList {frames : Frames} : (specs : List QuerySpec) →
    (QuerySpec.traceList frames specs).Follows (QuerySpec.nodesList specs)
  | [] => .nil
  | ⟨_, items, tables, filter, groupBy, having, _⟩ :: rest => by
    -- the walk goes through the tables and the filter before the select list
    let inner := frames ++ [TableRef.factors tables]
    have htables := (@TableRef.follows_traceList inner tables).append
      (@Expr.follows_traceOption inner filter)
    have hspec := ((htables.append (@SelectItem.follows_traceList inner items)).append
      (@Expr.follows_traceList inner groupBy)).append (@Expr.follows_traceOption inner having)
    have hfollows := hspec.append (@QuerySpec.follows_traceList frames rest)
    refine hfollows.perm (List.Perm.append_right _ ?_)
    refine List.Perm.append_right _ (List.Perm.append_right _ ?_)
    rw [List.append_assoc (SelectItem.nodesList items)]
    exact perm_append_comm

theorem SelectItem.follows_traceList {frames : Frames} : (items : List SelectItem) →
    (SelectItem.traceList frames items).Follows (SelectItem.nodesList items)
  | [] => .nil
  | .expr value _ _ :: rest =>
    (Expr.follows_trace value).append (SelectItem.follows_traceList rest)
  | .all _ :: rest => SelectItem.follows_traceList rest
  | .allOf _ _ :: rest => SelectItem.follows_traceList rest

theorem TableRef.follows_traceList {frames : Frames} : (tables : List TableRef) →
    (TableRef.traceList frames tables).Follows (TableRef.nodesList tables)
  | [] => .nil
  | ⟨factor, joins, _⟩ :: rest =>
    ((TableFactor.follows_trace factor).append (Join.follows_traceList joins)).append
      (TableRef.follows_traceList rest)

theorem Join.follows_traceList {frames : Frames} : (joins : List Join) →
    (Join.traceList frames joins).Follows (Join.nodesList joins)
  | [] => .nil
  | ⟨_, factor, .on condition, _⟩ :: rest =>
    ((TableFactor.follows_trace factor).append (Expr.follows_trace condition)).append
      (Join.follows_traceList rest)
  | ⟨_, factor, .shared _, _⟩ :: rest | ⟨_, factor, .none, _⟩ :: rest =>
    ((TableFactor.follows_trace factor).append .nil).append (Join.follows_traceList rest)

theorem TableFactor.follows_trace : (factor : TableFactor) → factor.trace.Follows factor.nodes
  | .table _ _ _ _ => .nil
  | .derived query _ _ => Query.follows_trace query

end

end SqlSignature
