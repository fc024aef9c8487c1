import SqlSignature.Grammar.Knot
/-!
# SqlSignature.Grammar.Statement

The rules for statements, and the statement that a text is.
-/

namespace SqlSignature.Grammar

open SqlSignature.Parser

/-- A column and the value it is set to. -/
def assignment (g : Grammar) : Parser Assignment := do
  let pivot := (← get).position
  let first ← identifier
  let (table, column) ←
    if ← acceptSymbol "." then
      let column ← identifier
      pure (some first, column)
    else pure (none, first)
  expectSymbol "="
  let value ← g.expr
  return { table, column, value, span := (← get).spanFrom pivot }

/-- A row of values. -/
def row (g : Grammar) : Parser (List Expr) := do
  expectSymbol "("
  if ← acceptSymbol ")" then return []
  else
    let values ← commaSeparated g.expr
    expectSymbol ")"
    return values

/-- The columns that an insertion names in parentheses. -/
def insertColumns : Parser (List String) := do
  if ← acceptSymbol "(" then
    let columns ← commaSeparated identifier
    expectSymbol ")"
    return columns
  else return []

/-- The rows of an insertion. A list of assignments names its columns itself. -/
def insertSource (g : Grammar) (columns : List String) : Parser (List String × InsertSource) := do
  if ← acceptAnyWord ["VALUES", "VALUE"] then
    let rows ← commaSeparated (row g)
    return (columns, .values rows)
  else if ← acceptWord "SET" then
    let assignments ← commaSeparated (assignment g)
    return (assignments.map Assignment.column, .values [assignments.map Assignment.value])
  else if (← get).isWord "SELECT" || (← get).isSymbol "(" then
    return (columns, .query (← g.query))
  else failHere .expectedRows

def insertion (g : Grammar) : Parser Insertion := do
  advance
  let _ ← acceptWord "IGNORE"
  let _ ← acceptWord "INTO"
  let table ← tableName false
  let named ← insertColumns
  let (columns, source) ← insertSource g named
  let onDuplicate ←
    afterAccepted (acceptPhrase Phrase.onDuplicate) (commaSeparated (assignment g))
  return { table, columns, source, onDuplicate := onDuplicate.getD [] }

def update (g : Grammar) : Parser Update := do
  advance
  let _ ← acceptWord "LOW_PRIORITY"
  let _ ← acceptWord "IGNORE"
  let tables ← commaSeparated (tableRef g)
  expectWord "SET"
  let assignments ← commaSeparated (assignment g)
  let filter ← afterAccepted (acceptWord "WHERE") g.expr
  return { tables, assignments, filter }

def deletion (g : Grammar) : Parser Deletion := do
  advance
  let _ ← acceptWord "LOW_PRIORITY"
  let _ ← acceptWord "QUICK"
  let _ ← acceptWord "IGNORE"
  expectWord "FROM"
  let table ← tableName true
  let filter ← afterAccepted (acceptWord "WHERE") g.expr
  return { table, filter }

/-- A statement of any kind. -/
def statementKind (g : Grammar) : Parser StatementKind := do
  let c ← get
  if c.isWord "SELECT" || c.isSymbol "(" then return .select (← g.query)
  else if c.isWord "INSERT" || c.isWord "REPLACE" then return .insert (← insertion g)
  else if c.isWord "UPDATE" then return .update (← update g)
  else if c.isWord "DELETE" then return .delete (← deletion g)
  else failHere .unsupportedStatement

/-- A statement and the semicolons after it, up to the end of the text. -/
def wholeStatement : Parser StatementKind := do
  let kind ← statementKind (ofCursor (← get))
  let _ ← collect (afterAccepted (acceptSymbol ";") (pure ()))
  let c ← get
  unless c.atEnd do
    set { c with position := c.tokens.size }
    fail .unexpectedToken c.position
  return kind

end SqlSignature.Grammar

namespace SqlSignature.Statement

/-- The statement that a text is. -/
def parse (text : String) : Except ParseError Statement := do
  let start ← Cursor.ofText text
  if start.atEnd then .error (.within text .emptyStatement 0 (Text.size text))
  else
    match Grammar.wholeStatement.run start with
    | .ok kind c => .ok { text, kind, placeholders := c.placeholders, nodes := c.nodes }
    | .error e _ => .error e

end SqlSignature.Statement
