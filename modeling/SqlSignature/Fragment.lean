import SqlSignature.Layout
import SqlSignature.ResultColumn
/-!
# SqlSignature.Fragment

The parts of a query that can be left out: items of the select list, tables, and conjuncts of the
filter. A part depends on columns that are selected and on bound values; it can be left out if none
of them is asked for.
-/

namespace SqlSignature

/-- A column of a table: the table by its visible name, and the name the column goes by. -/
structure TableField where
  field : String
  table : String
  name : String
  deriving Repr, DecidableEq

/-- Whether two fields are one column of one table. -/
def TableField.sameColumn (a b : TableField) : Bool :=
  Text.sameName a.field b.field && Text.sameName a.table b.table

/-- A part of a query. -/
structure Fragment where
  text : String
  fields : List TableField := []
  /-- The ordinals of the bound values in the part. -/
  ordinals : List Nat := []
  /-- The table that the part adds. -/
  relation : Option String := none
  /-- The table that the part joins its table to. -/
  parentRelation : Option String := none
  deriving Repr, DecidableEq

/-- The parts of a query. -/
structure Fragments where
  select : List Fragment
  tables : List Fragment
  filter : List Fragment
  deriving Repr, DecidableEq

/-- A part with what it depends on. -/
structure DependentFragment where
  text : String
  fields : List String
  parameters : List String
  deriving Repr, DecidableEq

/-- The parts of a query with what they depend on. -/
structure DynamicQuery where
  select : List DependentFragment
  tables : List DependentFragment
  filter : List DependentFragment
  deriving Repr, DecidableEq

namespace Fragments

/-- The field of a layout under the name of its result column, or else of its own. -/
def tableField (layout : Layout) (columns : List ResultColumn) (f : LayoutField) : TableField :=
  let table := (layout.sources[f.source]?.map LayoutSource.visible).getD ""
  let output := f.output.bind (columns[·]?)
  { field := f.column, table, name := (output.map ResultColumn.name).getD f.column }

/-- The table that a table is joined to, the earliest if there are several. -/
def parentOf? (layout : Layout) (source : Nat) : Option String := do
  let parent ← ((layout.links.filter (·.child == source)).map JoinLink.parent).min?
  let above ← layout.sources[parent]?
  return above.visible

/-- The parts of the query with a layout. -/
def ofLayout (layout : Layout) (columns : List ResultColumn) : Fragments :=
  let field := tableField layout columns
  { select := layout.items.map fun item => { text := item.text, fields := item.fields.map field }
    tables := layout.sources.zipIdx.map fun (source, index) =>
      { text := source.fragment
        fields := source.columns.map fun (name, _) =>
          { field := name, table := source.visible, name }
        relation := some source.visible
        parentRelation := parentOf? layout index }
    filter := layout.conjuncts.map fun conjunct =>
      { text := "AND " ++ conjunct.text, fields := conjunct.fields.map field
        ordinals := conjunct.ordinals } }

/-! ### Dependencies -/

/-- The fields of the parts that are joined to the part at an index. -/
def childFields (tables : List Fragment) (index : Nat) (relation : String) : List TableField :=
  tables.zipIdx.flatMap fun (t, i) =>
    if i != index && t.parentRelation == some relation then t.fields else []

/-- Adds to the part at an index the fields of the parts that are joined to it. -/
def absorbAt (tables : List Fragment) (index : Nat) : List Fragment :=
  match tables[index]? with
  | some { relation := some relation, .. } =>
    tables.modify index fun t => { t with fields := t.fields ++ childFields tables index relation }
  | _ => tables

/-- Adds to every part the fields of the parts that are joined to it, one part after the other: what
a later part absorbs does not reach the parts before it. -/
def absorbChildren (tables : List Fragment) : List Fragment :=
  (List.range tables.length).foldl absorbAt tables

/-- The name of a bound value. -/
def parameterName (names : List String) (ordinal : Nat) : String :=
  (names[ordinal]?).getD ("param" ++ toString (ordinal + 1))

/-- What a table depends on. A conjunct without bound values that reads the table keeps it in any
case. -/
def describeTable (fragments : Fragments) (names : List String) (t : Fragment) :
    DependentFragment :=
  let reads (conjunct : Fragment) : Bool :=
    conjunct.fields.any fun f => t.fields.any (·.sameColumn f)
  let readers := fragments.filter.filter reads
  if readers.any (·.ordinals.isEmpty) then { text := t.text, fields := [], parameters := [] }
  else
    let selected := fragments.select.flatMap Fragment.fields
    let outputs := t.fields.filterMap fun own => selected.find? (·.sameColumn own)
    { text := t.text
      fields := (outputs.map TableField.name).eraseDups
      parameters :=
        (readers.flatMap fun r => r.ordinals.map (parameterName names)).eraseDups }

/-- The parts of a query with what they depend on. -/
def describe (fragments : Fragments) (names : List String) : DynamicQuery :=
  { select := fragments.select.map fun item =>
      { text := item.text, fields := (item.fields.map TableField.name).eraseDups, parameters := [] }
    tables := (absorbChildren fragments.tables).map (fragments.describeTable names)
    filter := fragments.filter.map fun conjunct =>
      { text := conjunct.text, fields := []
        parameters := (conjunct.ordinals.map (parameterName names)).eraseDups } }

end Fragments

end SqlSignature
