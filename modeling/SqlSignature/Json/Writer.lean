import SqlSignature.Json
/-!
# SqlSignature.Json.Writer

The compact text of a JSON document: no spaces, members in their order. Quotes, backslashes and the
control characters below U+0020 are escaped, every other character stands for itself.
-/

namespace SqlSignature.Json

/-- A hexadecimal digit. -/
def hexDigit (n : Nat) : Char := "0123456789abcdef".toList.getD n '0'

/-- How a character is written inside a string. -/
def escapeChar (c : Char) : List Char :=
  if c == '"' then ['\\', '"']
  else if c == '\\' then ['\\', '\\']
  else if c == '\x08' then ['\\', 'b']
  else if c == '\t' then ['\\', 't']
  else if c == '\n' then ['\\', 'n']
  else if c == '\x0c' then ['\\', 'f']
  else if c == '\r' then ['\\', 'r']
  else if c.toNat < 0x20 then
    ['\\', 'u', '0', '0', hexDigit (c.toNat / 16), hexDigit (c.toNat % 16)]
  else [c]

/-- A text as a JSON string. -/
def quote (s : String) : String :=
  "\"" ++ String.ofList (s.toList.flatMap escapeChar) ++ "\""

mutual

/-- The text of a document. A string without a text is written as the empty string. -/
def render : Json → String
  | null => "null"
  | bool true => "true"
  | bool false => "false"
  | number digits => digits
  | string s => quote (s.getD "")
  | array elements => "[" ++ renderElements elements ++ "]"
  | object members => "\x7b" ++ renderMembers members ++ "\x7d"

/-- The elements of an array, with commas between them. -/
def renderElements : List Json → String
  | [] => ""
  | [element] => element.render
  | element :: rest => element.render ++ "," ++ renderElements rest

/-- The members of an object, with commas between them. -/
def renderMembers : List (Option String × Json) → String
  | [] => ""
  | [(name, value)] => quote (name.getD "") ++ ":" ++ value.render
  | (name, value) :: rest =>
    quote (name.getD "") ++ ":" ++ value.render ++ "," ++ renderMembers rest

end

end SqlSignature.Json
