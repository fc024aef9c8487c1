import SqlSignature.Catalog
import SqlSignature.Json.Reader
import SqlSignature.Json.Record
/-!
# SqlSignature.Catalog.Document

Catalogs and their parts as JSON documents.
-/

namespace SqlSignature

/-- A type by its declaration. -/
def SqlType.ofJson? (document : Json) : Option SqlType :=
  (Json.asText? document).map SqlType.ofDeclaration

/-- A key by its code, which may also stand as the only member of an object. -/
def ColumnKey.ofJson? : Json → Option ColumnKey
  | .string code => code.bind ColumnKey.ofCode?
  | .object [(code, .null)] => code.bind ColumnKey.ofCode?
  | _ => Option.none

def Column.ofJson? (document : Json) : Option Column := do
  let fields := [["schema"], ["table"], ["column"], ["columnType", "column_type"], ["notNull"],
    ["columnKey", "column_key"], ["default"]]
  match ← Json.fields? fields document with
  | [schema, table, name, type, notNull, key, preset] =>
    return {
      schema := ← Json.optional Json.asText? "" schema
      table := ← Json.required Json.asText? table
      name := ← Json.required Json.asText? name
      type := ← Json.required SqlType.ofJson? type
      notNull := ← Json.required Json.asBool? notNull
      key := ← Json.optional ColumnKey.ofJson? .none key
      preset := ← Json.optional Json.asNullableText? none preset }
  | _ => none

def ForeignKey.ofJson? (document : Json) : Option ForeignKey := do
  let fields := [["table"], ["column"], ["refTable"], ["refColumn"]]
  match ← Json.fields? fields document with
  | [table, column, refTable, refColumn] =>
    return {
      table := ← Json.required Json.asText? table
      column := ← Json.required Json.asText? column
      refTable := ← Json.required Json.asText? refTable
      refColumn := ← Json.required Json.asText? refColumn }
  | _ => none

namespace Catalog

def Document.ofJson? (document : Json) : Option Document := do
  match ← Json.fields? [["columns"], ["foreignKeys"]] document with
  | [columns, foreignKeys] =>
    return {
      columns := ← Json.required (Json.asList? Column.ofJson?) columns
      foreignKeys := ← Json.optional (Json.asList? ForeignKey.ofJson?) [] foreignKeys }
  | _ => none

/-- Why a text is no catalog. -/
inductive LoadError where
  /-- The text is no document of a catalog. -/
  | malformed
  | refused (error : CatalogError)
  deriving Repr, DecidableEq

/-- The catalog that a text holds. -/
def load (text : String) : Except LoadError Catalog :=
  match (Json.parse? text).bind Document.ofJson? with
  | some document =>
    match ofDocument document with
    | .ok catalog => .ok catalog
    | .error e => .error (.refused e)
  | none => .error .malformed

end Catalog

end SqlSignature
