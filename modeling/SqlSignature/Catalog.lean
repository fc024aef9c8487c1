import SqlSignature.SqlType
/-!
# SqlSignature.Catalog

The tables that statements speak of, their columns and their foreign keys. A catalog is built one
column at a time; a column that is there already, and a foreign key between columns that are not
there, are refused.
-/

namespace SqlSignature

/-- The part a column plays in the keys of its table. -/
inductive ColumnKey where
  | primary
  | unique
  /-- Part of an index that admits repetitions. -/
  | multiple
  | none
  deriving Repr, DecidableEq, Inhabited

/-- How a key is written. -/
def ColumnKey.code : ColumnKey → String
  | primary => "PRI"
  | unique => "UNI"
  | multiple => "MUL"
  | none => ""

/-- The key with a code. -/
def ColumnKey.ofCode? : String → Option ColumnKey
  | "PRI" => some .primary
  | "UNI" => some .unique
  | "MUL" => some .multiple
  | "" => some .none
  | _ => Option.none

/-- Whether a value of the column is in one row at most. -/
def ColumnKey.isUnique : ColumnKey → Bool
  | primary | unique => true
  | multiple | none => false

/-- A column of a table. -/
structure Column where
  schema : String
  table : String
  name : String
  type : SqlType
  notNull : Bool
  key : ColumnKey
  /-- The value that the column takes when none is given. -/
  preset : Option String
  deriving Repr, DecidableEq

/-- A table with its columns in order. -/
structure Table where
  schema : String
  name : String
  columns : List Column
  deriving Repr, DecidableEq

/-- A column whose values are those of another column. -/
structure ForeignKey where
  table : String
  column : String
  refTable : String
  refColumn : String
  deriving Repr, DecidableEq

/-- Whether a foreign key leads from one table to the other, in either direction. -/
def ForeignKey.links (fk : ForeignKey) (a b : String) : Bool :=
  (Text.sameName fk.table a && Text.sameName fk.refTable b) ||
    (Text.sameName fk.table b && Text.sameName fk.refTable a)

namespace Table

/-- The column with a name, up to case. -/
def column? (t : Table) (name : String) : Option Column :=
  t.columns.find? fun c => Text.sameName c.name name

/-- The columns of the primary key. -/
def primaryKey (t : Table) : List Column := t.columns.filter (·.key == .primary)

/-- Whether a value of a column is in one row at most. -/
def isUnique (t : Table) (name : String) : Bool := (t.column? name).any (·.key.isUnique)

end Table

/-- Tables in the order in which they were first met, and foreign keys. -/
structure Catalog where
  tables : List Table
  foreignKeys : List ForeignKey
  deriving Repr, DecidableEq

/-- Why a catalog refuses an addition. -/
inductive CatalogError where
  | duplicateColumn (table column : String)
  | invalidReference (key : ForeignKey)
  deriving Repr, DecidableEq

/-- The wording of an error. -/
def CatalogError.message : CatalogError → String
  | duplicateColumn table column =>
    "duplicated column '" ++ column ++ "' in table '" ++ table ++ "'"
  | invalidReference fk =>
    "foreign key " ++ fk.table ++ "." ++ fk.column ++ " references unknown column " ++
      fk.refTable ++ "." ++ fk.refColumn

namespace Catalog

def empty : Catalog := ⟨[], []⟩

/-- The name under which a table is filed: its schema and its name, in small letters. -/
def fileName (schema table : String) : String := Text.lower schema ++ "." ++ Text.lower table

/-- Whether a table is filed under a name. -/
def isFiledUnder (t : Table) (name : String) : Bool := fileName t.schema t.name == name

/-- The table with a name. Without a schema, it is the first one with that name. -/
def table? (c : Catalog) (schema : Option String) (name : String) : Option Table :=
  match schema with
  | some schema => c.tables.find? (isFiledUnder · (fileName schema name))
  | none => c.tables.find? fun t => Text.sameName t.name name

/-- A change of a catalog. There is a catalog afterwards also if the change is refused. -/
abbrev Change := EStateM CatalogError Catalog

/-- Makes sure that there is a table, which has no columns if it is new. -/
def openTable (schema name : String) (c : Catalog) : Catalog :=
  if (c.table? (some schema) name).isSome then c
  else { c with tables := c.tables ++ [{ schema, name, columns := [] }] }

/-- Adds a column at the end of the table that is filed under a name. -/
def putColumn (name : String) (column : Column) : List Table → List Table
  | [] => []
  | t :: rest =>
    if isFiledUnder t name then { t with columns := t.columns ++ [column] } :: rest
    else t :: putColumn name column rest

/-- The column with the name of another, in the table that the other belongs to. -/
def namesake? (c : Catalog) (column : Column) : Option Column :=
  (c.table? (some column.schema) column.table).bind (·.column? column.name)

/-- Enters a column. Its table is opened before its name is compared with those in the table. -/
def enterColumn (column : Column) : Change Unit := do
  modify (openTable column.schema column.table)
  let c ← get
  if (c.namesake? column).isSome then throw (.duplicateColumn column.table column.name)
  set { c with tables := putColumn (fileName column.schema column.table) column c.tables }

/-- The column of a table, both given by name only. -/
def endpoint? (c : Catalog) (table column : String) : Option Column :=
  (c.table? none table).bind (·.column? column)

/-- Enters a foreign key. -/
def enterForeignKey (fk : ForeignKey) : Change Unit := do
  let c ← get
  if !(c.endpoint? fk.table fk.column).isSome || !(c.endpoint? fk.refTable fk.refColumn).isSome then
    throw (.invalidReference fk)
  set { c with foreignKeys := c.foreignKeys ++ [fk] }

/-- The catalog after a change, or the reason why the change is refused. -/
def changed (c : Catalog) (change : Change Unit) : Except CatalogError Catalog :=
  match change c with
  | .ok _ c => .ok c
  | .error e _ => .error e

/-- The catalog with another column. -/
def addColumn (c : Catalog) (column : Column) : Except CatalogError Catalog :=
  c.changed (enterColumn column)

/-- The catalog with another foreign key. -/
def addForeignKey (c : Catalog) (fk : ForeignKey) : Except CatalogError Catalog :=
  c.changed (enterForeignKey fk)

/-- The catalog of some columns. -/
def ofColumns (columns : List Column) : Except CatalogError Catalog :=
  empty.changed (columns.forM enterColumn)

/-- Columns and foreign keys as they are listed in a document. -/
structure Document where
  columns : List Column
  foreignKeys : List ForeignKey
  deriving Repr, DecidableEq

/-- The catalog of a document. -/
def ofDocument (d : Document) : Except CatalogError Catalog := do
  (← ofColumns d.columns).changed (d.foreignKeys.forM enterForeignKey)

/-- The document of a catalog. -/
def toDocument (c : Catalog) : Document :=
  { columns := c.tables.flatMap Table.columns, foreignKeys := c.foreignKeys }

end Catalog

end SqlSignature
