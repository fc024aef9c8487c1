import SqlSignature.Layout
import SqlSignature.ResultColumn
/-!
# SqlSignature.Nested

A flat result of joined tables as a tree of relations. Every table that contributes columns is a
relation. A relation hangs below the tables it is joined to; where such a table contributes nothing,
it hangs below the tables that this one is joined to.
-/

namespace SqlSignature

/-- How many rows of a relation belong to one row of the relation above. -/
inductive Cardinality where
  | one
  | many
  deriving Repr, DecidableEq

namespace Cardinality

def name : Cardinality → String
  | one => "one"
  | many => "many"

/-- The cardinality along two steps. -/
def chain : Cardinality → Cardinality → Cardinality
  | one, one => one
  | _, _ => many

end Cardinality

/-- An entry of a relation: a result column, or a relation below. -/
inductive RelationEntry where
  | field (name : String) (index : Nat)
  | relation (name : String) (cardinality : Cardinality)
  deriving Repr, DecidableEq

structure Relation where
  name : String
  /-- The first result column of the relation. -/
  groupKey : Nat
  entries : List RelationEntry
  deriving Repr, DecidableEq

structure NestedResult where
  relations : List Relation
  deriving Repr, DecidableEq

/-- The relation with a name. -/
def NestedResult.relation? (r : NestedResult) (name : String) : Option Relation :=
  r.relations.find? (·.name == name)

namespace Nested

/-- A table above another and the cardinality of the step between them. -/
abbrev Parent := Nat × Cardinality

/-- Records a parent once. If it is recorded already, the cardinality one wins. -/
def merge (found : List Parent) (parent : Nat) (cardinality : Cardinality) : List Parent :=
  if found.any (·.1 == parent) then
    found.map fun (known, c) => (known, if known == parent && cardinality == .one then .one else c)
  else found ++ [(parent, cardinality)]

/-! ### Tables above a table -/

/-- The parents that the joins of a table name. -/
def linkedParents (layout : Layout) (source : Nat) (child : LayoutSource) : List Parent :=
  (layout.links.filter (·.child == source)).foldl
    (fun found link =>
      merge found link.parent (if (child.key link.childColumn).isUnique then .one else .many))
    []

/-- The first earlier table that a foreign key links a table to. -/
def foreignParent? (layout : Layout) (foreignKeys : List ForeignKey) (source : Nat)
    (child : LayoutSource) : Option Parent := do
  let earlier := layout.sources.take source
  let isLinked (parent : LayoutSource) : Bool :=
    !parent.derived && foreignKeys.any (·.links parent.table child.table)
  let index ← earlier.findIdx? isLinked
  let parent ← earlier[index]?
  let holdsKey := foreignKeys.any fun fk =>
    Text.sameName fk.table parent.table && Text.sameName fk.refTable child.table
  return (index, if holdsKey then .one else .many)

/-- The tables directly above a table: those its joins name, or else the first that a foreign key
leads to. -/
def hops (layout : Layout) (foreignKeys : List ForeignKey) (source : Nat) : List Parent :=
  match layout.sources[source]? with
  | none => []
  | some child =>
    let linked := linkedParents layout source child
    if !linked.isEmpty || child.derived then linked
    else (foreignParent? layout foreignKeys source child).toList

/-- The contributing tables above a table, and the tables visited on the way. Each step up goes
to a table that was not visited, so as much fuel as there are links and tables is enough. -/
def parentsUpTo (layout : Layout) (foreignKeys : List ForeignKey) (contributes : Nat → Bool) :
    (fuel source : Nat) → (visited : List Nat) → List Parent × List Nat
  | 0, _, visited => ([], visited)
  | fuel + 1, source, visited =>
    (hops layout foreignKeys source).foldl
      (fun (found, visited) (parent, cardinality) =>
        if contributes parent then (merge found parent cardinality, visited)
        else if visited.contains parent then (found, visited)
        else
          let (above, visited) :=
            parentsUpTo layout foreignKeys contributes fuel parent (visited ++ [parent])
          (above.foldl (fun found (p, c) => merge found p (cardinality.chain c)) found, visited))
      ([], visited)

/-- The contributing tables above a table. -/
def parents (layout : Layout) (foreignKeys : List ForeignKey) (contributes : Nat → Bool)
    (source : Nat) : List Parent :=
  (parentsUpTo layout foreignKeys contributes (layout.links.length + layout.sources.length + 1)
    source [source]).1

/-- The name of a relation: that of its table, or the alias where the table occurs twice. -/
def relationName (layout : Layout) (source : Nat) : String :=
  match layout.sources[source]? with
  | none => ""
  | some current =>
    let occurrences := layout.sources.filter fun other => Text.sameName other.table current.table
    if current.derived || decide (1 < occurrences.length) then current.visible else current.table

/-! ### The relations of a result -/

/-- Each contributing table with its first result column, in the order of these columns. -/
def groupKeysFrom :
    (index : Nat) → (found : List (Nat × Nat)) → List ResultColumn → List (Nat × Nat)
  | _, found, [] => found
  | index, found, column :: rest =>
    match column.origin with
    | some origin =>
      if found.any (·.1 == origin.source) then groupKeysFrom (index + 1) found rest
      else groupKeysFrom (index + 1) (found ++ [(origin.source, index)]) rest
    | none => groupKeysFrom (index + 1) found rest

/-- The contributing tables with their first result columns. The first table of the query comes
first. -/
def groupKeys (columns : List ResultColumn) : List (Nat × Nat) :=
  let keys := groupKeysFrom 0 [] columns
  keys.filter (·.1 == 0) ++ keys.filter (·.1 != 0)

/-- The fields of a table, each with its place among the result columns. -/
def fieldEntries (columns : List ResultColumn) (source : Nat) : List (Nat × RelationEntry) :=
  columns.zipIdx.filterMap fun (column, index) =>
    if column.origin.any (·.source == source) then
      some (index, .field column.sourceName index)
    else none

/-- The relations below a table, each with its place: that of its first column, or past the last
column if that stands before the first column of the table. -/
def childEntries (layout : Layout) (columns : List ResultColumn)
    (parentsOf : Nat → List Parent) (ordered : List (Nat × Nat)) (source groupKey : Nat) :
    List (Nat × RelationEntry) :=
  ordered.filterMap fun (child, childKey) => do
    let (_, cardinality) ← (parentsOf child).find? (·.1 == source)
    let place := if groupKey < childKey then childKey else columns.length
    return (place, .relation (relationName layout child) cardinality)

/-- The relations of a result. -/
def decompose (columns : List ResultColumn) (layout : Layout) (foreignKeys : List ForeignKey) :
    NestedResult :=
  let ordered := groupKeys columns
  let contributes (source : Nat) : Bool := ordered.any (·.1 == source)
  let parentsOf := parents layout foreignKeys contributes
  let relation : Nat × Nat → Relation := fun (source, groupKey) =>
    let entries := fieldEntries columns source ++
      childEntries layout columns parentsOf ordered source groupKey
    { name := relationName layout source, groupKey
      entries := (entries.mergeSort fun a b => decide (a.1 ≤ b.1)).map Prod.snd }
  { relations := ordered.map relation }

end Nested

end SqlSignature
