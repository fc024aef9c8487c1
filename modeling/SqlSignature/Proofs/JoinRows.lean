import SqlSignature.Catalog
import SqlSignature.Expr
/-!
# SqlSignature.Proofs.JoinRows

The rows that a clause of base tables gives. Tables are numbered in the order in which they are
named, and a row of joined tables has a row of each of them. A join pairs the rows on its left with
the rows of the joined table; a left join also keeps the rows on its left that have no partner, a
right join those of the joined table, a full join both, with nulls on the other side. Items between
commas are put beside each other in every way.
-/

namespace SqlSignature

/-! ### Clauses of base tables -/

/-- A table of the catalog in a clause. -/
structure BaseTable where
  schema : Option String
  name : String
  label : Option String
  span : Span

/-- A base table that is joined, with a condition or without. -/
structure BaseJoin where
  kind : JoinKind
  table : BaseTable
  condition : Option Expr
  span : Span

/-- A base table followed by those that are joined to it. -/
structure BaseItem where
  table : BaseTable
  joins : List BaseJoin
  span : Span

def BaseTable.toFactor (t : BaseTable) : TableFactor := .table t.schema t.name t.label t.span

def BaseJoin.constraint (j : BaseJoin) : JoinConstraint :=
  match j.condition with
  | some condition => .on condition
  | none => .none

def BaseJoin.toJoin (j : BaseJoin) : Join := ⟨j.kind, j.table.toFactor, j.constraint, j.span⟩

def BaseItem.toTableRef (item : BaseItem) : TableRef :=
  ⟨item.table.toFactor, item.joins.map BaseJoin.toJoin, item.span⟩

/-- The number of tables of an item. -/
def BaseItem.width (item : BaseItem) : Nat := 1 + item.joins.length

/-- The conditions of the joins of an item. -/
def BaseItem.conditions (item : BaseItem) : List Expr :=
  item.joins.flatMap fun j => j.condition.toList

/-! ### Rows -/

/-- The values of a row of one table, by the indices of the columns. -/
abbrev Tuple (V : Type) := Nat → Option V

/-- A row of joined tables, by the indices of the tables. -/
abbrev Row (V : Type) := Nat → Tuple V

namespace Row

variable {V : Type}

/-- The row that has nulls only. -/
def padded : Row V := fun _ _ => none

/-- A row with another row of one table. -/
def put (r : Row V) (index : Nat) (t : Tuple V) : Row V := fun i => if i = index then t else r i

/-- A row whose tables from an index on are those of another row. -/
def beside (r : Row V) (first : Nat) (item : Row V) : Row V :=
  fun i => if i < first then r i else item i

@[simp] theorem put_self (r : Row V) (index : Nat) (t : Tuple V) : r.put index t index = t := by
  simp [put]

theorem put_of_ne (r : Row V) {index i : Nat} (t : Tuple V) (h : i ≠ index) :
    r.put index t i = r i := by
  simp [put, h]

theorem beside_of_lt (r item : Row V) {first i : Nat} (h : i < first) :
    r.beside first item i = r i := by
  simp [beside, h]

theorem beside_of_le (r item : Row V) {first i : Nat} (h : first ≤ i) :
    r.beside first item i = item i := by
  simp [beside, Nat.not_lt.mpr h]

end Row

/-- The rows of the tables of a catalog. -/
structure Database (V : Type) where
  rows : Table → List (Tuple V)

/-- Columns that are declared not to be null are not null. -/
def Database.Respects {V : Type} (db : Database V) (catalog : Catalog) : Prop :=
  ∀ table ∈ catalog.tables, ∀ t ∈ db.rows table, ∀ i column,
    table.columns[i]? = some column → column.notNull = true → t i ≠ none

/-! ### Joins -/

/-- Whether a join keeps rows on its left that have no partner. -/
def JoinKind.keepsLeft : JoinKind → Bool
  | left | full => true
  | right | inner | cross => false

/-- Whether a join keeps rows of the joined table that have no partner. -/
def JoinKind.keepsRight : JoinKind → Bool
  | right | full => true
  | left | inner | cross => false

section

variable {V : Type} (catalog : Catalog) (db : Database V) (holds : Expr → Row V → Bool)

/-- The rows of a base table. -/
def BaseTable.rows (t : BaseTable) : List (Tuple V) :=
  match catalog.table? t.schema t.name with
  | some table => db.rows table
  | none => []

/-- Whether the condition of a join is true. -/
def BaseJoin.admits (j : BaseJoin) (r : Row V) : Bool := j.condition.all (holds · r)

/-- The pairs of a row on the left and a row of the joined table that a join admits. -/
def pairs (admits : Row V → Bool) (joined : Nat) (left : List (Row V)) (right : List (Tuple V)) :
    List (Row V) :=
  left.flatMap fun r => (right.map (r.put joined)).filter admits

/-- The rows on the left without a partner. -/
def leftOver (admits : Row V → Bool) (joined : Nat) (left : List (Row V))
    (right : List (Tuple V)) : List (Row V) :=
  (left.filter fun r => !right.any fun t => admits (r.put joined t)).map
    (·.put joined fun _ => none)

/-- The rows of the joined table without a partner. -/
def rightOver (admits : Row V → Bool) (joined : Nat) (left : List (Row V))
    (right : List (Tuple V)) : List (Row V) :=
  (right.filter fun t => !left.any fun r => admits (r.put joined t)).map (Row.padded.put joined)

/-- The rows of a join. -/
def joinRows (kind : JoinKind) (admits : Row V → Bool) (joined : Nat) (left : List (Row V))
    (right : List (Tuple V)) : List (Row V) :=
  pairs admits joined left right ++
    (if kind.keepsLeft then leftOver admits joined left right else []) ++
    (if kind.keepsRight then rightOver admits joined left right else [])

/-- The rows of joins in a row, the first of which joins the table at an index. -/
def chainRows (joined : Nat) (left : List (Row V)) : List BaseJoin → List (Row V)
  | [] => left
  | j :: rest =>
    chainRows (joined + 1)
      (joinRows j.kind (j.admits holds) joined left (j.table.rows catalog db)) rest

/-- The rows of an item whose first table has an index. -/
def BaseItem.rows (item : BaseItem) (first : Nat) : List (Row V) :=
  chainRows catalog db holds (first + 1)
    ((item.table.rows catalog db).map (Row.padded.put first)) item.joins

/-- The rows of items, beside the rows of the tables before them. -/
def clauseRows (first : Nat) (before : List (Row V)) : List BaseItem → List (Row V)
  | [] => before
  | item :: rest =>
    clauseRows (first + item.width)
      (before.flatMap fun r => (item.rows catalog db holds first).map (r.beside first)) rest

/-! ### What conditions read -/

/-- A condition depends on some of the tables only. -/
def ReadsOnly (e : Expr) (first last : Nat) : Prop :=
  ∀ r r' : Row V, (∀ i, first ≤ i → i < last → r i = r' i) → holds e r = holds e r'

/-- Every condition reads only tables of its own item that have been joined by then. -/
def JoinsRead (first : Nat) : Nat → List BaseJoin → Prop
  | _, [] => True
  | joined, j :: rest =>
    (∀ e ∈ j.condition, ReadsOnly holds e first (joined + 1)) ∧ JoinsRead first (joined + 1) rest

def ItemsRead : Nat → List BaseItem → Prop
  | _, [] => True
  | first, item :: rest =>
    JoinsRead holds first (first + 1) item.joins ∧ ItemsRead (first + item.width) rest

variable {holds}

theorem ReadsOnly.mono {e : Expr} {first last first' last' : Nat}
    (h : ReadsOnly holds e first last) (hf : first' ≤ first) (hl : last ≤ last') :
    ReadsOnly holds e first' last' :=
  fun r r' heq => h r r' fun i hi hi' => heq i (by omega) (by omega)

end

/-! ### Membership -/

section

variable {V : Type} {admits : Row V → Bool} {joined : Nat} {left : List (Row V)}
  {right : List (Tuple V)} {r : Row V}

theorem mem_pairs :
    r ∈ pairs admits joined left right ↔
      ∃ l ∈ left, ∃ t ∈ right, r = l.put joined t ∧ admits r = true := by
  simp only [pairs, List.mem_flatMap, List.mem_filter, List.mem_map]
  constructor
  · rintro ⟨l, hl, ⟨t, ht, rfl⟩, ha⟩
    exact ⟨l, hl, t, ht, rfl, ha⟩
  · rintro ⟨l, hl, t, ht, rfl, ha⟩
    exact ⟨l, hl, ⟨t, ht, rfl⟩, ha⟩

/-- What a row of a join has of its two sides. A side that the join can pad is left open. -/
theorem mem_joinRows {kind : JoinKind} (h : r ∈ joinRows kind admits joined left right) :
    (kind.keepsRight = false → ∃ l ∈ left, ∀ i, i ≠ joined → r i = l i) ∧
      (kind.keepsLeft = false → r joined ∈ right) ∧
      ((kind.keepsLeft || kind.keepsRight) = false → admits r = true) := by
  simp only [joinRows, List.mem_append] at h
  rcases h with (h | h) | h
  · obtain ⟨l, hl, t, ht, rfl, hadmits⟩ := mem_pairs.mp h
    refine ⟨fun _ => ⟨l, hl, fun i hi => l.put_of_ne t hi⟩, fun _ => ?_, fun _ => hadmits⟩
    rw [Row.put_self]
    exact ht
  · split at h
    next hkeep =>
      obtain ⟨l, hl, rfl⟩ := List.mem_map.mp h
      have hl := (List.mem_filter.mp hl).1
      exact ⟨fun _ => ⟨l, hl, fun i hi => l.put_of_ne _ hi⟩, by simp [hkeep], by simp [hkeep]⟩
    next => exact absurd h List.not_mem_nil
  · split at h
    next hkeep =>
      obtain ⟨t, ht, rfl⟩ := List.mem_map.mp h
      refine ⟨by simp [hkeep], fun _ => ?_, by simp [hkeep]⟩
      rw [Row.put_self]
      exact (List.mem_filter.mp ht).1
    next => exact absurd h List.not_mem_nil

end

end SqlSignature
