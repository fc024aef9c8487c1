import SqlSignature.Parser
import SqlSignature.Statement
/-!
# SqlSignature.Grammar.Name

The rules for names: aliases, tables, columns and the types of casts.
-/

namespace SqlSignature.Grammar

open SqlSignature.Parser

/-- Whether a token can be an alias. After `AS` a reserved word can, too. -/
def canBeAlias (token : Token) (explicit allowString : Bool) : Bool :=
  match token.kind with
  | .quotedName => true
  | .word => explicit || !isReserved token.text
  | .string => allowString
  | _ => false

/-- An alias, possibly after `AS`, if there is one. -/
def aliasName (allowString : Bool) : Parser (Option String) := do
  let explicit ← acceptWord "AS"
  match (← get).current with
  | some token =>
    if canBeAlias token explicit allowString then
      advance
      return some token.text
    else if explicit then failHere .expectedAlias
    else return none
  | none => if explicit then failHere .expectedAlias else return none

/-- A table, possibly with its schema and an alias. -/
def tableName (withAlias : Bool) : Parser TableName := do
  let first ← identifier
  let (schema, name) ←
    if ← acceptSymbol "." then
      let name ← identifier
      pure (some first, name)
    else pure (none, first)
  let label ← if withAlias then aliasName false else pure none
  return { schema, name, label }

/-- A column, possibly with its table and the schema of the table. -/
def column : Parser Expr := do
  let c ← get
  let first ← identifier
  let rest ← collect (afterAccepted (acceptSymbol ".") identifier)
  let start := c.tokenStart c.position
  match first, rest with
  | name, [] => finish start (.column { schema := none, table := none, name })
  | table, [name] => finish start (.column { schema := none, table := some table, name })
  | schema, [table, name] =>
    finish start (.column { schema := some schema, table := some table, name })
  | _, _ => fail .invalidColumn c.position

/-- The type that a cast names, and the words that belong to the name. -/
def castTarget (name : String) : Parser SqlType := do
  match name with
  | "SIGNED" | "UNSIGNED" =>
    let _ ← acceptWord "INTEGER"
    let _ ← acceptWord "INT"
    return .bigInt
  | "CHAR" | "NCHAR" => return .varchar
  | "BINARY" => return .varBinary
  | "DOUBLE" =>
    let _ ← acceptWord "PRECISION"
    return .double
  | other => return SqlType.ofDeclaration other

/-- The type of a cast, possibly with a length in parentheses. -/
def typeName : Parser SqlType := do
  let name ← identifier
  let target ← castTarget (Text.capitals name)
  if ← acceptSymbol "(" then
    skipTo ")"
    expectSymbol ")"
  return target

end SqlSignature.Grammar
