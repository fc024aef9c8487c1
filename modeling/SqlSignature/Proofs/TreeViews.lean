import Mathlib.Logic.Basic
import SqlSignature.Grammar.Statement
/-!
# SqlSignature.Proofs.TreeViews

Trees without the places that they were read from. Two readings of the same tokens give trees that
differ in spans; if they stand at different places, also in the numbers of nodes and the ordinals of
bound values, and if the tokens are the same up to case, also in the case of names. A `View` says
what becomes of numbers, ordinals and names, `Expr.view` leaves the spans out, and two results agree
if they are the same, each in its own view (`Agree`).
-/

open List

namespace SqlSignature

/-- What becomes of the numbers of nodes, the ordinals of bound values and the names in a tree. -/
structure View where
  number : Nat → Nat
  ordinal : Nat → Nat
  name : String → String

namespace View

/-- Without numbers, the bound values renumbered. -/
def bare (f : Nat → Nat) : View := ⟨fun _ => 0, f, id⟩

/-- With all names in small letters. -/
def folded : View := ⟨id, id, Text.lower⟩

/-- A view of what another view leaves. -/
def after (v w : View) : View := ⟨v.number ∘ w.number, v.ordinal ∘ w.ordinal, v.name ∘ w.name⟩

end View

def ColumnRef.view (v : View) (c : ColumnRef) : ColumnRef :=
  ⟨c.schema.map v.name, c.table.map v.name, v.name c.name⟩

/-! ### Views of expressions and queries -/

mutual

/-- An expression without spans, as it is in a view. -/
def Expr.view (v : View) : Expr → Expr
  | .node id _ form => .node (v.number id) ⟨0, 0⟩ (form.view v)

def ExprForm.view (v : View) : ExprForm → ExprForm
  | .literal value => .literal value
  | .column ref => .column (ref.view v)
  | .placeholder ordinal => .placeholder (v.ordinal ordinal)
  | .unary op operand => .unary op (operand.view v)
  | .binary op left right => .binary op (left.view v) (right.view v)
  | .isNull operand negated => .isNull (operand.view v) negated
  | .isTruth operand value negated => .isTruth (operand.view v) value negated
  | .inList operand list negated => .inList (operand.view v) (Expr.viewList v list) negated
  | .inQuery operand query negated => .inQuery (operand.view v) (query.view v) negated
  | .between operand low high negated =>
    .between (operand.view v) (low.view v) (high.view v) negated
  | .like operand pattern escape negated =>
    .like (operand.view v) (pattern.view v) (Expr.viewOption v escape) negated
  | .choice operand branches otherwise =>
    .choice (Expr.viewOption v operand) (Branch.viewList v branches) (Expr.viewOption v otherwise)
  | .call name args distinct star extras =>
    .call name (Expr.viewList v args) distinct star (Expr.viewList v extras)
  | .cast operand target => .cast (operand.view v) target
  | .interval operand unit => .interval (operand.view v) unit
  | .existence query => .existence (query.view v)
  | .subquery query => .subquery (query.view v)

def Expr.viewList (v : View) : List Expr → List Expr
  | [] => []
  | e :: rest => e.view v :: Expr.viewList v rest

def Expr.viewOption (v : View) : Option Expr → Option Expr
  | none => none
  | some e => some (e.view v)

def Branch.viewList (v : View) : List Branch → List Branch
  | [] => []
  | ⟨condition, result⟩ :: rest =>
    ⟨condition.view v, result.view v⟩ :: Branch.viewList v rest

def Query.view (v : View) : Query → Query
  | ⟨specs, unionAll, orderBy, limit, _⟩ =>
    ⟨QuerySpec.viewList v specs, unionAll, SortKey.viewList v orderBy, Limit.viewOption v limit,
      ⟨0, 0⟩⟩

def Limit.viewOption (v : View) : Option Limit → Option Limit
  | none => none
  | some ⟨count, offset⟩ => some ⟨count.view v, Expr.viewOption v offset⟩

def SortKey.viewList (v : View) : List SortKey → List SortKey
  | [] => []
  | ⟨expr, descending⟩ :: rest => ⟨expr.view v, descending⟩ :: SortKey.viewList v rest

def QuerySpec.viewList (v : View) : List QuerySpec → List QuerySpec
  | [] => []
  | ⟨distinct, items, tables, filter, groupBy, having, _⟩ :: rest =>
    ⟨distinct, SelectItem.viewList v items, TableRef.viewList v tables, Expr.viewOption v filter,
      Expr.viewList v groupBy, Expr.viewOption v having, ⟨0, 0⟩⟩ :: QuerySpec.viewList v rest

def SelectItem.viewList (v : View) : List SelectItem → List SelectItem
  | [] => []
  | .expr value label _ :: rest =>
    .expr (value.view v) (label.map v.name) ⟨0, 0⟩ :: SelectItem.viewList v rest
  | .all _ :: rest => .all ⟨0, 0⟩ :: SelectItem.viewList v rest
  | .allOf table _ :: rest => .allOf (v.name table) ⟨0, 0⟩ :: SelectItem.viewList v rest

def TableRef.viewList (v : View) : List TableRef → List TableRef
  | [] => []
  | ⟨factor, joins, _⟩ :: rest =>
    ⟨factor.view v, Join.viewList v joins, ⟨0, 0⟩⟩ :: TableRef.viewList v rest

def Join.viewList (v : View) : List Join → List Join
  | [] => []
  | ⟨kind, factor, constraint, _⟩ :: rest =>
    ⟨kind, factor.view v, constraint.view v, ⟨0, 0⟩⟩ :: Join.viewList v rest

def JoinConstraint.view (v : View) : JoinConstraint → JoinConstraint
  | .on condition => .on (condition.view v)
  | .shared columns => .shared (columns.map v.name)
  | .none => .none

def TableFactor.view (v : View) : TableFactor → TableFactor
  | .table schema name label _ =>
    .table (schema.map v.name) (v.name name) (label.map v.name) ⟨0, 0⟩
  | .derived query label _ => .derived (query.view v) (v.name label) ⟨0, 0⟩

end

/-! ### Single parts -/

def Branch.view (v : View) (b : Branch) : Branch := ⟨b.condition.view v, b.result.view v⟩

def Limit.view (v : View) (l : Limit) : Limit := ⟨l.count.view v, l.offset.map (Expr.view v)⟩

def SortKey.view (v : View) (k : SortKey) : SortKey := ⟨k.expr.view v, k.descending⟩

def SelectItem.view (v : View) : SelectItem → SelectItem
  | .expr value label _ => .expr (value.view v) (label.map v.name) ⟨0, 0⟩
  | .all _ => .all ⟨0, 0⟩
  | .allOf table _ => .allOf (v.name table) ⟨0, 0⟩

def Join.view (v : View) (j : Join) : Join :=
  ⟨j.kind, j.factor.view v, j.constraint.view v, ⟨0, 0⟩⟩

def TableRef.view (v : View) (t : TableRef) : TableRef :=
  ⟨t.factor.view v, t.joins.map (Join.view v), ⟨0, 0⟩⟩

def QuerySpec.view (v : View) (s : QuerySpec) : QuerySpec :=
  ⟨s.distinct, s.items.map (SelectItem.view v), s.tables.map (TableRef.view v),
    s.filter.map (Expr.view v), s.groupBy.map (Expr.view v), s.having.map (Expr.view v), ⟨0, 0⟩⟩

def Grammar.Arguments.view (v : View) (a : Grammar.Arguments) : Grammar.Arguments :=
  ⟨a.args.map (Expr.view v), a.distinct, a.star, a.extras.map (Expr.view v)⟩

section

variable (v : View)

@[simp] theorem Expr.viewList_eq (es : List Expr) : Expr.viewList v es = es.map (Expr.view v) := by
  induction es with
  | nil => rfl
  | cons e rest ih => rw [Expr.viewList, ih, map_cons]

@[simp] theorem Expr.viewOption_eq (o : Option Expr) :
    Expr.viewOption v o = o.map (Expr.view v) := by
  cases o <;> rfl

@[simp] theorem Branch.viewList_eq (bs : List Branch) :
    Branch.viewList v bs = bs.map (Branch.view v) := by
  induction bs with
  | nil => rfl
  | cons b rest ih =>
    cases b
    rw [Branch.viewList, ih, map_cons, Branch.view]

@[simp] theorem Limit.viewOption_eq (o : Option Limit) :
    Limit.viewOption v o = o.map (Limit.view v) := by
  cases o with
  | none => rfl
  | some l =>
    cases l
    simp [Limit.viewOption, Limit.view]

@[simp] theorem SortKey.viewList_eq (ks : List SortKey) :
    SortKey.viewList v ks = ks.map (SortKey.view v) := by
  induction ks with
  | nil => rfl
  | cons k rest ih =>
    cases k
    rw [SortKey.viewList, ih, map_cons, SortKey.view]

@[simp] theorem SelectItem.viewList_eq (items : List SelectItem) :
    SelectItem.viewList v items = items.map (SelectItem.view v) := by
  induction items with
  | nil => rfl
  | cons item rest ih => cases item <;> rw [SelectItem.viewList, ih, map_cons, SelectItem.view]

@[simp] theorem Join.viewList_eq (js : List Join) : Join.viewList v js = js.map (Join.view v) := by
  induction js with
  | nil => rfl
  | cons j rest ih =>
    cases j
    rw [Join.viewList, ih, map_cons, Join.view]

@[simp] theorem TableRef.viewList_eq (ts : List TableRef) :
    TableRef.viewList v ts = ts.map (TableRef.view v) := by
  induction ts with
  | nil => rfl
  | cons t rest ih =>
    cases t
    rw [TableRef.viewList, ih, map_cons, TableRef.view, Join.viewList_eq]

@[simp] theorem QuerySpec.viewList_eq (ss : List QuerySpec) :
    QuerySpec.viewList v ss = ss.map (QuerySpec.view v) := by
  induction ss with
  | nil => rfl
  | cons s rest ih =>
    cases s
    simp [QuerySpec.viewList, ih, QuerySpec.view]

end

/-! ### A view of a view -/

section

variable (v w : View)

@[simp] theorem View.after_number (n : Nat) : (v.after w).number n = v.number (w.number n) := rfl
@[simp] theorem View.after_ordinal (n : Nat) :
    (v.after w).ordinal n = v.ordinal (w.ordinal n) := rfl
@[simp] theorem View.after_name (s : String) : (v.after w).name s = v.name (w.name s) := rfl

@[simp] theorem View.map_after_name (o : Option String) :
    o.map (v.after w).name = (o.map w.name).map v.name := by
  rw [Option.map_map]
  rfl

theorem ColumnRef.view_view (c : ColumnRef) : (c.view w).view v = c.view (v.after w) := by
  simp [ColumnRef.view]

mutual

theorem Expr.view_view : (e : Expr) → (e.view w).view v = e.view (v.after w)
  | .node _ _ form => by simp [Expr.view, form.view_view]

theorem ExprForm.view_view : (form : ExprForm) → (form.view w).view v = form.view (v.after w)
  | .literal _ | .placeholder _ => rfl
  | .column ref => by simp only [ExprForm.view, ref.view_view]
  | .unary _ operand | .isNull operand _ | .isTruth operand _ _ | .cast operand _
  | .interval operand _ => by simp only [ExprForm.view, operand.view_view]
  | .binary _ left right => by simp only [ExprForm.view, left.view_view, right.view_view]
  | .inList operand list _ => by
    simp only [ExprForm.view, operand.view_view, Expr.viewList_viewList list]
  | .inQuery operand query _ => by
    simp only [ExprForm.view, operand.view_view, query.view_view]
  | .between operand low high _ => by
    simp only [ExprForm.view, operand.view_view, low.view_view, high.view_view]
  | .like operand pattern escape _ => by
    simp only [ExprForm.view, operand.view_view, pattern.view_view,
      Expr.viewOption_viewOption escape]
  | .choice operand branches otherwise => by
    simp only [ExprForm.view, Expr.viewOption_viewOption operand,
      Branch.viewList_viewList branches, Expr.viewOption_viewOption otherwise]
  | .call _ args _ _ extras => by
    simp only [ExprForm.view, Expr.viewList_viewList args, Expr.viewList_viewList extras]
  | .existence query | .subquery query => by simp only [ExprForm.view, query.view_view]

theorem Expr.viewList_viewList : (es : List Expr) →
    Expr.viewList v (Expr.viewList w es) = Expr.viewList (v.after w) es
  | [] => rfl
  | e :: rest => by simp only [Expr.viewList, e.view_view, Expr.viewList_viewList rest]

theorem Expr.viewOption_viewOption : (o : Option Expr) →
    Expr.viewOption v (Expr.viewOption w o) = Expr.viewOption (v.after w) o
  | none => rfl
  | some e => by simp only [Expr.viewOption, e.view_view]

theorem Branch.viewList_viewList : (bs : List Branch) →
    Branch.viewList v (Branch.viewList w bs) = Branch.viewList (v.after w) bs
  | [] => rfl
  | ⟨condition, result⟩ :: rest => by
    simp only [Branch.viewList, condition.view_view, result.view_view,
      Branch.viewList_viewList rest]

theorem Query.view_view : (q : Query) → (q.view w).view v = q.view (v.after w)
  | ⟨specs, _, orderBy, limit, _⟩ => by
    simp only [Query.view, QuerySpec.viewList_viewList specs, SortKey.viewList_viewList orderBy,
      Limit.viewOption_viewOption limit]

theorem Limit.viewOption_viewOption : (o : Option Limit) →
    Limit.viewOption v (Limit.viewOption w o) = Limit.viewOption (v.after w) o
  | none => rfl
  | some ⟨count, offset⟩ => by
    simp only [Limit.viewOption, count.view_view, Expr.viewOption_viewOption offset]

theorem SortKey.viewList_viewList : (ks : List SortKey) →
    SortKey.viewList v (SortKey.viewList w ks) = SortKey.viewList (v.after w) ks
  | [] => rfl
  | ⟨expr, _⟩ :: rest => by
    simp only [SortKey.viewList, expr.view_view, SortKey.viewList_viewList rest]

theorem QuerySpec.viewList_viewList : (ss : List QuerySpec) →
    QuerySpec.viewList v (QuerySpec.viewList w ss) = QuerySpec.viewList (v.after w) ss
  | [] => rfl
  | ⟨_, items, tables, filter, groupBy, having, _⟩ :: rest => by
    simp only [QuerySpec.viewList, SelectItem.viewList_viewList items,
      TableRef.viewList_viewList tables, Expr.viewOption_viewOption filter,
      Expr.viewList_viewList groupBy, Expr.viewOption_viewOption having,
      QuerySpec.viewList_viewList rest]

theorem SelectItem.viewList_viewList : (items : List SelectItem) →
    SelectItem.viewList v (SelectItem.viewList w items) = SelectItem.viewList (v.after w) items
  | [] => rfl
  | .expr value _ _ :: rest => by
    simp only [SelectItem.viewList, value.view_view, View.map_after_name,
      SelectItem.viewList_viewList rest]
  | .all _ :: rest => by simp only [SelectItem.viewList, SelectItem.viewList_viewList rest]
  | .allOf _ _ :: rest => by
    simp only [SelectItem.viewList, View.after_name, SelectItem.viewList_viewList rest]

theorem TableRef.viewList_viewList : (ts : List TableRef) →
    TableRef.viewList v (TableRef.viewList w ts) = TableRef.viewList (v.after w) ts
  | [] => rfl
  | ⟨factor, joins, _⟩ :: rest => by
    simp only [TableRef.viewList, factor.view_view, Join.viewList_viewList joins,
      TableRef.viewList_viewList rest]

theorem Join.viewList_viewList : (js : List Join) →
    Join.viewList v (Join.viewList w js) = Join.viewList (v.after w) js
  | [] => rfl
  | ⟨_, factor, constraint, _⟩ :: rest => by
    simp only [Join.viewList, factor.view_view, constraint.view_view, Join.viewList_viewList rest]

theorem JoinConstraint.view_view : (j : JoinConstraint) → (j.view w).view v = j.view (v.after w)
  | .on condition => by simp only [JoinConstraint.view, condition.view_view]
  | .shared columns => by
    simp only [JoinConstraint.view, map_map]
    rfl
  | .none => rfl

theorem TableFactor.view_view : (t : TableFactor) → (t.view w).view v = t.view (v.after w)
  | .table _ _ _ _ => by simp [TableFactor.view]
  | .derived query _ _ => by simp only [TableFactor.view, query.view_view, View.after_name]

end

end

/-! ### Views of statements -/

def TableName.view (v : View) (t : TableName) : TableName :=
  ⟨t.schema.map v.name, v.name t.name, t.label.map v.name⟩

def Assignment.view (v : View) (a : Assignment) : Assignment :=
  ⟨a.table.map v.name, v.name a.column, a.value.view v, ⟨0, 0⟩⟩

def InsertSource.view (v : View) : InsertSource → InsertSource
  | .values rows => .values (rows.map (List.map (Expr.view v)))
  | .query q => .query (q.view v)

def Insertion.view (v : View) (i : Insertion) : Insertion :=
  ⟨i.table.view v, i.columns.map v.name, i.source.view v, i.onDuplicate.map (Assignment.view v)⟩

def Update.view (v : View) (u : Update) : Update :=
  ⟨u.tables.map (TableRef.view v), u.assignments.map (Assignment.view v),
    u.filter.map (Expr.view v)⟩

def Deletion.view (v : View) (d : Deletion) : Deletion :=
  ⟨d.table.view v, d.filter.map (Expr.view v)⟩

def StatementKind.view (v : View) : StatementKind → StatementKind
  | .select q => .select (q.view v)
  | .insert i => .insert (i.view v)
  | .update u => .update (u.view v)
  | .delete d => .delete (d.view v)

/-! ### Agreement -/

/-- Results of parsers, as they are in a view. -/
class Viewed (α : Type) where
  view : View → α → α
  view_view : ∀ v w a, view v (view w a) = view (v.after w) a

namespace Viewed

/-- What is the same in every view. -/
@[reducible] def plain (α : Type) : Viewed α := ⟨fun _ a => a, fun _ _ _ => rfl⟩

instance : Viewed Unit := plain _
instance : Viewed Bool := plain _
instance : Viewed UnaryOp := plain _
instance : Viewed BinaryOp := plain _
instance : Viewed SqlType := plain _
instance : Viewed JoinKind := plain _

/-- A text is a name. -/
instance : Viewed String := ⟨View.name, fun _ _ _ => rfl⟩

/-- A number is the ordinal of a bound value. -/
instance : Viewed Nat := ⟨View.ordinal, fun _ _ _ => rfl⟩

instance : Viewed ColumnRef := ⟨ColumnRef.view, ColumnRef.view_view⟩
instance : Viewed Expr := ⟨Expr.view, Expr.view_view⟩
instance : Viewed ExprForm := ⟨ExprForm.view, ExprForm.view_view⟩
instance : Viewed Query := ⟨Query.view, Query.view_view⟩
instance : Viewed TableFactor := ⟨TableFactor.view, TableFactor.view_view⟩
instance : Viewed JoinConstraint := ⟨JoinConstraint.view, JoinConstraint.view_view⟩

instance {α : Type} [Viewed α] : Viewed (List α) where
  view v := List.map (view v)
  view_view v w as := by
    rw [List.map_map]
    exact List.map_congr_left fun a _ => view_view v w a

instance {α : Type} [Viewed α] : Viewed (Option α) where
  view v := Option.map (view v)
  view_view v w o := by
    rw [Option.map_map]
    exact Option.map_congr fun a _ => view_view v w a

instance {α β : Type} [Viewed α] [Viewed β] : Viewed (α × β) where
  view v p := (view v p.1, view v p.2)
  view_view v w p := Prod.ext (view_view v w p.1) (view_view v w p.2)

instance : Viewed Branch where
  view := Branch.view
  view_view v w b := by simp only [Branch.view, Expr.view_view]

instance : Viewed SortKey where
  view := SortKey.view
  view_view v w k := by simp only [SortKey.view, Expr.view_view]

instance : Viewed Limit where
  view := Limit.view
  view_view v w l := congrArg₂ Limit.mk (view_view v w l.count) (view_view v w l.offset)

instance : Viewed SelectItem where
  view := SelectItem.view
  view_view v w item := by
    cases item with
    | expr value label =>
      exact congrArg₂ (SelectItem.expr · · _) (view_view v w value) (view_view v w label)
    | all | allOf => rfl

instance : Viewed Join where
  view := Join.view
  view_view v w j := congrArg₂ (Join.mk j.kind · · _) (view_view v w j.factor)
    (view_view v w j.constraint)

instance : Viewed TableRef where
  view := TableRef.view
  view_view v w t := congrArg₂ (TableRef.mk · · _) (view_view v w t.factor) (view_view v w t.joins)

instance : Viewed QuerySpec where
  view := QuerySpec.view
  view_view v w s := by
    show QuerySpec.mk _ _ _ _ _ _ _ = QuerySpec.mk _ _ _ _ _ _ _
    congr 1
    · exact view_view v w s.items
    · exact view_view v w s.tables
    · exact view_view v w s.filter
    · exact view_view v w s.groupBy
    · exact view_view v w s.having

instance : Viewed Grammar.Arguments where
  view := Grammar.Arguments.view
  view_view v w a := congrArg₂ (Grammar.Arguments.mk · a.distinct a.star ·) (view_view v w a.args)
    (view_view v w a.extras)

instance : Viewed TableName where
  view := TableName.view
  view_view v w t := congrArg₂ (TableName.mk · _ ·) (view_view v w t.schema) (view_view v w t.label)

instance : Viewed Assignment where
  view := Assignment.view
  view_view v w a := congrArg₂ (Assignment.mk · _ · _) (view_view v w a.table)
    (view_view v w a.value)

instance : Viewed InsertSource where
  view := InsertSource.view
  view_view v w source := by
    cases source with
    | values rows => exact congrArg InsertSource.values (view_view v w rows)
    | query q => exact congrArg InsertSource.query (view_view v w q)

instance : Viewed Insertion where
  view := Insertion.view
  view_view v w i := by
    show Insertion.mk _ _ _ _ = Insertion.mk _ _ _ _
    congr 1
    · exact view_view v w i.table
    · exact view_view v w i.columns
    · exact view_view v w i.source
    · exact view_view v w i.onDuplicate

instance : Viewed Update where
  view := Update.view
  view_view v w u := by
    show Update.mk _ _ _ = Update.mk _ _ _
    congr 1
    · exact view_view v w u.tables
    · exact view_view v w u.assignments
    · exact view_view v w u.filter

instance : Viewed Deletion where
  view := Deletion.view
  view_view v w d := congrArg₂ Deletion.mk (view_view v w d.table) (view_view v w d.filter)

instance : Viewed StatementKind where
  view := StatementKind.view
  view_view v w kind := by
    cases kind with
    | select q => exact congrArg StatementKind.select (view_view v w q)
    | insert i => exact congrArg StatementKind.insert (view_view v w i)
    | update u => exact congrArg StatementKind.update (view_view v w u)
    | delete d => exact congrArg StatementKind.delete (view_view v w d)

end Viewed

/-- Two results are the same, the first in one view and the second in another. -/
def Agree {α : Type} [Viewed α] (v w : View) (a b : α) : Prop := Viewed.view w b = Viewed.view v a

section

variable {α β : Type} [Viewed α] [Viewed β] {v w : View}

/-- What is left of a result in a view agrees with it. -/
theorem agree_view (h : w.after v = v) (a : α) : Agree v w a (Viewed.view v a) :=
  (Viewed.view_view w v a).trans (congrArg (Viewed.view · a) h)

theorem agree_nil : Agree v w ([] : List α) [] := rfl

theorem agree_none : Agree v w (none : Option α) none := rfl

theorem Agree.some {a b : α} (h : Agree v w a b) : Agree v w (some a) (some b) :=
  congrArg Option.some h

variable {as bs : List α}

theorem Agree.cons {a b : α} (h : Agree v w a b) (hrest : Agree v w as bs) :
    Agree v w (a :: as) (b :: bs) :=
  congrArg₂ List.cons h hrest

theorem Agree.append {as' bs' : List α} (h : Agree v w as bs) (h' : Agree v w as' bs') :
    Agree v w (as ++ as') (bs ++ bs') := by
  show List.map _ _ = List.map _ _
  rw [map_append, map_append]
  exact congrArg₂ (· ++ ·) h h'

theorem Agree.toList {o p : Option α} (h : Agree v w o p) : Agree v w o.toList p.toList := by
  cases o <;> cases p <;> first | rfl | cases h | exact congrArg (fun a => [a]) (Option.some.inj h)

theorem Agree.getD {o p : Option (List α)} (h : Agree v w o p) :
    Agree v w (o.getD []) (p.getD []) := by
  cases o <;> cases p <;> first | rfl | cases h | exact Option.some.inj h

theorem Agree.length_eq (h : Agree v w as bs) : bs.length = as.length := by
  have hlength := congrArg List.length h
  simpa [Viewed.view] using hlength

theorem Agree.isEmpty (h : Agree v w as bs) : bs.isEmpty = as.isEmpty := by
  have hlength := h.length_eq
  cases as <;> cases bs <;> first | rfl | cases hlength

/-- Lists of what the views leave as it is agree if they are equal. -/
theorem Agree.list_eq (h : Agree v w as bs) (hv : ∀ a : α, Viewed.view v a = a := by intro; rfl)
    (hw : ∀ a : α, Viewed.view w a = a := by intro; rfl) : bs = as :=
  (map_id'' hw bs).symm.trans (h.trans (map_id'' hv as))

/-- Lists agree in what a part of their members is. -/
theorem Agree.map {f : α → β} (hf : ∀ (u : View) a, Viewed.view u (f a) = f (Viewed.view u a))
    (h : Agree v w as bs) : Agree v w (as.map f) (bs.map f) := by
  have hmap : ∀ (u : View) (l : List α),
      (l.map f).map (Viewed.view u) = (l.map (Viewed.view u)).map f := fun u l => by
    rw [map_map, map_map]
    exact map_congr_left fun a _ => hf u a
  exact (hmap w bs).trans ((congrArg (List.map f) h).trans (hmap v as).symm)

end

/-! ### Agreement of the forms with lists -/

section

variable {v w : View} {e e' : Expr}

theorem agree_inList (he : Agree v w e e') {list list' : List Expr} (hlist : Agree v w list list')
    (negated : Bool) :
    Agree v w (ExprForm.inList e list negated) (.inList e' list' negated) := by
  show ExprForm.inList _ (Expr.viewList _ _) _ = ExprForm.inList _ (Expr.viewList _ _) _
  rw [Expr.viewList_eq, Expr.viewList_eq]
  exact congrArg₂ (ExprForm.inList · · negated) he hlist

theorem agree_like (he : Agree v w e e') {pattern pattern' : Expr}
    (hpattern : Agree v w pattern pattern') {escape escape' : Option Expr}
    (hescape : Agree v w escape escape') (negated : Bool) :
    Agree v w (ExprForm.like e pattern escape negated) (.like e' pattern' escape' negated) := by
  show ExprForm.like _ _ (Expr.viewOption _ _) _ = ExprForm.like _ _ (Expr.viewOption _ _) _
  rw [Expr.viewOption_eq, Expr.viewOption_eq]
  congr 1

theorem agree_choice {operand operand' : Option Expr} (hoperand : Agree v w operand operand')
    {branches branches' : List Branch} (hbranches : Agree v w branches branches')
    {otherwise otherwise' : Option Expr} (hotherwise : Agree v w otherwise otherwise') :
    Agree v w (ExprForm.choice operand branches otherwise)
      (.choice operand' branches' otherwise') := by
  show ExprForm.choice (Expr.viewOption _ _) (Branch.viewList _ _) (Expr.viewOption _ _) =
    ExprForm.choice (Expr.viewOption _ _) (Branch.viewList _ _) (Expr.viewOption _ _)
  rw [Expr.viewOption_eq, Expr.viewOption_eq, Expr.viewOption_eq, Expr.viewOption_eq,
    Branch.viewList_eq, Branch.viewList_eq]
  congr 1

theorem agree_call (name : String) {a a' : Grammar.Arguments} (h : Agree v w a a') :
    Agree v w (ExprForm.call name a.args a.distinct a.star a.extras)
      (.call name a'.args a'.distinct a'.star a'.extras) := by
  show ExprForm.call _ (Expr.viewList _ _) _ _ (Expr.viewList _ _) =
    ExprForm.call _ (Expr.viewList _ _) _ _ (Expr.viewList _ _)
  rw [Expr.viewList_eq, Expr.viewList_eq, Expr.viewList_eq, Expr.viewList_eq]
  exact congrArg (fun b : Grammar.Arguments =>
    ExprForm.call name b.args b.distinct b.star b.extras) h

theorem agree_query {first first' : QuerySpec} (hfirst : Agree v w first first')
    {others others' : List (Bool × QuerySpec)} (hothers : Agree v w others others')
    {orderBy orderBy' : List SortKey} (horderBy : Agree v w orderBy orderBy')
    {limit limit' : Option Limit} (hlimit : Agree v w limit limit') (span span' : Span) :
    Agree v w (Query.mk (first :: others.map Prod.snd) (others.map Prod.fst) orderBy limit span)
      (Query.mk (first' :: others'.map Prod.snd) (others'.map Prod.fst) orderBy' limit' span') := by
  show Query.mk (QuerySpec.viewList _ _) _ (SortKey.viewList _ _) (Limit.viewOption _ _) _ =
    Query.mk (QuerySpec.viewList _ _) _ (SortKey.viewList _ _) (Limit.viewOption _ _) _
  rw [QuerySpec.viewList_eq, QuerySpec.viewList_eq, SortKey.viewList_eq, SortKey.viewList_eq,
    Limit.viewOption_eq, Limit.viewOption_eq]
  have hspecs := hfirst.cons (hothers.map (f := Prod.snd) fun _ _ => rfl)
  rw [(hothers.map (f := Prod.fst) fun _ _ => rfl).list_eq]
  congr 1

end

end SqlSignature
