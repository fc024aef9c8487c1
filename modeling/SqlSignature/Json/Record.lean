import SqlSignature.Json
/-!
# SqlSignature.Json.Record

Records in JSON documents. A record with certain fields is an object, in which members with other
names are passed over and no field may occur twice, or an array of the values of its first fields in
order.
-/

namespace SqlSignature.Json

/-- A field by the names it may go by. -/
abbrev FieldNames := List String

/-- The values of the members that are a field. -/
def memberValues (names : FieldNames) (members : List (Option String × Json)) : List Json :=
  members.filterMap fun (name, value) =>
    if name.any names.contains then some value else none

/-- The value of a field, if it is there; there is no answer if it is there twice. -/
def member? (members : List (Option String × Json)) (names : FieldNames) : Option (Option Json) :=
  match memberValues names members with
  | [] => some none
  | [value] => some (some value)
  | _ => none

/-- The values of fields, in the order of the fields. -/
def fieldsOfObject (members : List (Option String × Json)) :
    List FieldNames → Option (List (Option Json))
  | [] => some []
  | names :: rest => do
    let value ← member? members names
    let values ← fieldsOfObject members rest
    return value :: values

/-- The values of the fields of a record. -/
def fields? (fields : List FieldNames) : Json → Option (List (Option Json))
  | .object members =>
    if members.all fun (name, _) => name.isSome then fieldsOfObject members fields else none
  | .array elements =>
    if elements.length ≤ fields.length then
      some (elements.map some ++ List.replicate (fields.length - elements.length) none)
    else none
  | _ => none

/-! ### Values of fields -/

/-- The value of a field that has to be there. -/
def required {α : Type} (decode : Json → Option α) (value : Option Json) : Option α :=
  value.bind decode

/-- The value of a field that may be missing. -/
def optional {α : Type} (decode : Json → Option α) (otherwise : α) : Option Json → Option α
  | some value => decode value
  | none => some otherwise

def asText? : Json → Option String
  | .string text => text
  | _ => none

def asBool? : Json → Option Bool
  | .bool value => some value
  | _ => none

/-- A text, or `null` for none. -/
def asNullableText? : Json → Option (Option String)
  | .null => some none
  | .string text => text.map some
  | _ => none

/-- An array whose elements can all be decoded. -/
def asList? {α : Type} (decode : Json → Option α) : Json → Option (List α)
  | .array elements => elements.mapM decode
  | _ => none

end SqlSignature.Json
