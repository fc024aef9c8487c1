/-!
# SqlSignature.Json

JSON documents as they are written: members keep their order and may repeat, a number is its digits.
A string whose escapes leave half of a surrogate pair is well formed but has no text.
-/

namespace SqlSignature

/-- A JSON document. -/
inductive Json where
  | null
  | bool (value : Bool)
  /-- A number, as it is written. -/
  | number (digits : String)
  /-- A string; `none` when its escapes spell no text. -/
  | string (text : Option String)
  | array (elements : List Json)
  | object (members : List (Option String × Json))
  deriving Repr, Inhabited

namespace Json

/-- The string with a text. -/
def text (s : String) : Json := .string (some s)

/-- The number of a count or an offset. -/
def nat (n : Nat) : Json := .number (toString n)

/-- A text that may be missing. -/
def optionalText : Option String → Json
  | some s => text s
  | none => .null

/-- The array of some texts. -/
def texts (ss : List String) : Json := .array (ss.map text)

/-- The object with some members. -/
def record (members : List (String × Json)) : Json :=
  .object (members.map fun (name, value) => (some name, value))

end Json

end SqlSignature
