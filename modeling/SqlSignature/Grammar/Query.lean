import SqlSignature.Grammar
import SqlSignature.Grammar.Name
/-!
# SqlSignature.Grammar.Query

The rules for queries, over the parsers for what lies inside them.
-/

namespace SqlSignature.Grammar

open SqlSignature.Parser

/-! ### Select lists -/

/-- Whether the columns of one table are asked for here, `t.*`. -/
def allOfTableAt (c : Cursor) : Bool :=
  c.current.any Token.isIdentifier && (c.peek 1).any (·.isSymbol ".") &&
    (c.peek 2).any (·.isSymbol "*")

/-- An item of a select list. -/
def selectItem (g : Grammar) : Parser SelectItem := do
  let pivot := (← get).position
  if ← acceptSymbol "*" then return .all ((← get).spanFrom pivot)
  else if allOfTableAt (← get) then
    let table ← identifier
    advance
    advance
    return .allOf table ((← get).spanFrom pivot)
  else
    let value ← g.expr
    let label ← aliasName true
    return .expr value label ((← get).spanFrom pivot)

/-! ### Tables -/

/-- A table by name, or a query in its place. -/
def factor (g : Grammar) : Parser TableFactor := do
  let pivot := (← get).position
  if ← acceptSymbol "(" then
    unless (← get).isWord "SELECT" do
      fail .expectedDerivedTable pivot
    let query ← g.query
    expectSymbol ")"
    match ← aliasName false with
    | some label => return .derived query label ((← get).spanFrom pivot)
    | none => fail .derivedTableWithoutAlias pivot
  else
    let table ← tableName true
    return .table table.schema table.name table.label ((← get).spanFrom pivot)

/-- The kind of the join that the next words announce. -/
def joinKind? : Parser (Option JoinKind) := do
  if ← acceptPhrase Phrase.innerJoin then return some .inner
  else if ← acceptWord "JOIN" then return some .inner
  else if ← acceptWord "STRAIGHT_JOIN" then return some .inner
  else if ← acceptPhrase Phrase.crossJoin then return some .cross
  else if ← acceptPhrase Phrase.leftJoin then return some .left
  else if ← acceptPhrase Phrase.rightJoin then return some .right
  else if ← acceptPhrase Phrase.fullJoin then return some .full
  else return none

/-- The constraint of a join. -/
def joinConstraint (g : Grammar) : Parser JoinConstraint := do
  if ← acceptWord "ON" then return .on (← g.expr)
  else if ← acceptPhrase Phrase.sharedColumns then
    expectSymbol "("
    let columns ← commaSeparated identifier
    expectSymbol ")"
    return .shared columns
  else return .none

/-- A join, if one follows. -/
def join? (g : Grammar) : Parser (Option Join) := do
  let pivot := (← get).position
  match ← joinKind? with
  | some kind =>
    let joined ← factor g
    let constraint ← joinConstraint g
    return some { kind, factor := joined, constraint, span := (← get).spanFrom pivot }
  | none => return none

/-- A table and the tables that are joined to it. -/
def tableRef (g : Grammar) : Parser TableRef := do
  let pivot := (← get).position
  let first ← factor g
  let joins ← collect (join? g)
  return { factor := first, joins, span := (← get).spanFrom pivot }

/-! ### Specifications and queries -/

/-- The keys of a grouping. -/
def groupKeys (g : Grammar) : Parser (List Expr) := do
  let keys ← commaSeparated g.expr
  if ← acceptWord "WITH" then
    expectWord "ROLLUP"
  return keys

/-- A specification, possibly in parentheses. -/
def specRule (g : Grammar) : Parser QuerySpec := do
  if ← acceptSymbol "(" then
    let spec ← g.spec
    expectSymbol ")"
    return spec
  else
    let pivot := (← get).position
    expectWord "SELECT"
    let distinct ← acceptAnyWord ["DISTINCT", "DISTINCTROW"]
    let _ ← acceptWord "ALL"
    let _ ← acceptWord "SQL_CALC_FOUND_ROWS"
    let items ← commaSeparated (selectItem g)
    let tables ← afterAccepted (acceptWord "FROM") (commaSeparated (tableRef g))
    let filter ← afterAccepted (acceptWord "WHERE") g.expr
    let groupBy ← afterAccepted (acceptPhrase Phrase.groupBy) (groupKeys g)
    let having ← afterAccepted (acceptWord "HAVING") g.expr
    return {
      distinct, items, tables := tables.getD [], filter, groupBy := groupBy.getD [], having,
      span := (← get).spanFrom pivot }

/-- A specification after `UNION`, and whether duplicates stay. -/
def unionBranch (g : Grammar) : Parser (Bool × QuerySpec) := do
  let all ← acceptWord "ALL"
  unless all do
    let _ ← acceptWord "DISTINCT"
  let spec ← g.spec
  return (all, spec)

/-- A key to sort by. -/
def sortKey (g : Grammar) : Parser SortKey := do
  let expr ← g.expr
  if ← acceptWord "DESC" then return { expr, descending := true }
  else
    let _ ← acceptWord "ASC"
    return { expr, descending := false }

/-- What follows `LIMIT`: a count and an offset in either order. -/
def limit (g : Grammar) : Parser Limit := do
  let first ← g.primary
  if ← acceptSymbol "," then
    let count ← g.primary
    return { count, offset := some first }
  else
    let offset ← afterAccepted (acceptWord "OFFSET") g.primary
    return { count := first, offset }

/-- A query. -/
def queryRule (g : Grammar) : Parser Query := do
  let pivot := (← get).position
  let first ← g.spec
  let others ← collect (afterAccepted (acceptPhrase Phrase.union) (unionBranch g))
  let orderBy ← afterAccepted (acceptPhrase Phrase.orderBy) (commaSeparated (sortKey g))
  let limit ← afterAccepted (acceptWord "LIMIT") (limit g)
  return {
    specs := first :: others.map Prod.snd, unionAll := others.map Prod.fst,
    orderBy := orderBy.getD [], limit, span := (← get).spanFrom pivot }

end SqlSignature.Grammar
