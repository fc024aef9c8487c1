import SqlSignature.Json.Writer
import SqlSignature.Signature
/-!
# SqlSignature.Signature.Document

Signatures as JSON documents. Members that say nothing are left out.
-/

namespace SqlSignature

/-- A type, or the array of the types of a set. -/
def ColumnType.toJson : ColumnType → Json
  | single type => .text type.name
  | oneOf types => .texts (types.map SqlType.name)

def ResultColumn.toJson (c : ResultColumn) : Json :=
  .record [("name", .text c.name), ("dbtype", c.type.toJson), ("notNull", .bool c.notNull)]

def Parameter.toJson (p : Parameter) : Json :=
  .record ([("name", .text p.name), ("columnType", p.type.toJson), ("notNull", .bool p.notNull)] ++
    if p.list then [("list", .bool true)] else [])

def RelationEntry.toJson : RelationEntry → Json
  | field name index =>
    .record [("type", .text "field"), ("name", .text name), ("index", .nat index)]
  | relation name cardinality =>
    .record [("type", .text "relation"), ("name", .text name),
      ("cardinality", .text cardinality.name)]

def Relation.toJson (r : Relation) : Json :=
  .record [("name", .text r.name), ("groupKeyIndex", .nat r.groupKey),
    ("columns", .array (r.entries.map RelationEntry.toJson))]

def NestedResult.toJson (r : NestedResult) : Json :=
  .record [("relations", .array (r.relations.map Relation.toJson))]

def DependentFragment.toJson (f : DependentFragment) : Json :=
  .record [("fragment", .text f.text), ("dependOnFields", .texts f.fields),
    ("dependOnParams", .texts f.parameters)]

def DynamicQuery.toJson (q : DynamicQuery) : Json :=
  let fragments (fs : List DependentFragment) : Json := .array (fs.map DependentFragment.toJson)
  .record [("select", fragments q.select), ("from", fragments q.tables),
    ("where", fragments q.filter)]

namespace Signature

/-- A member for something that may be missing. -/
def member {α : Type} (name : String) (encode : α → Json) (value : Option α) :
    List (String × Json) :=
  value.toList.map fun a => (name, encode a)

def toJson (s : Signature) : Json :=
  let parameters (ps : List Parameter) : Json := .array (ps.map Parameter.toJson)
  .record
    ([("sql", .text s.text), ("queryType", .text s.type.name),
      ("multipleRowsResult", .bool s.multipleRows),
      ("columns", .array (s.columns.map ResultColumn.toJson)),
      ("parameters", parameters s.parameters)] ++
    member "data" parameters s.data ++
    member "orderByColumns" Json.texts s.orderByColumns ++
    member "parameterNames" Json.texts s.parameterNames ++
    member "nestedResultInfo" NestedResult.toJson s.nested ++
    member "dynamicSqlQuery" DynamicQuery.toJson s.dynamic)

/-- The document of a signature as text. -/
def render (s : Signature) : String := s.toJson.render

end Signature

end SqlSignature
