import SqlSignature.Grammar
import SqlSignature.Grammar.Name
/-!
# SqlSignature.Grammar.Expression

The rules for expressions, over the parsers for what lies inside them. Operators are read tier by
tier: an expression of a tier is an expression of the next tier, extended by the operators of the
tier as long as one follows.
-/

namespace SqlSignature.Grammar

open SqlSignature.Parser

/-! ### Operators -/

/-- Extends an expression by a left-associative operator of a tier. -/
def operation? (g : Grammar) (tier : Tier) (left : Expr) : Parser (Option Expr) := do
  match (← get).current.bind tier.operator? with
  | some op =>
    advance
    let right ← g.tier tier.next
    return some (← combine op left right)
  | none => return none

/-- What follows `IS`. -/
def truthTest (start : Nat) (operand : Expr) : Parser Expr := do
  let negated ← acceptWord "NOT"
  if ← acceptAnyWord ["NULL", "UNKNOWN"] then finish start (.isNull operand negated)
  else if ← acceptWord "TRUE" then finish start (.isTruth operand true negated)
  else if ← acceptWord "FALSE" then finish start (.isTruth operand false negated)
  else failHere .expectedTruthValue

/-- What follows `IN`. -/
def membership (g : Grammar) (start : Nat) (operand : Expr) (negated : Bool) : Parser Expr := do
  expectSymbol "("
  if (← get).isWord "SELECT" then
    let query ← g.query
    expectSymbol ")"
    finish start (.inQuery operand query negated)
  else
    let list ← commaSeparated g.expr
    expectSymbol ")"
    finish start (.inList operand list negated)

/-- Whether a negated predicate follows. -/
def negatedPredicateAt (c : Cursor) : Bool :=
  Phrase.notIn.standsAt c || Phrase.notBetween.standsAt c || Phrase.notLike.standsAt c ||
    Phrase.notRegexp.standsAt c

/-- Extends an expression by a predicate other than a comparison. -/
def wordPredicate? (g : Grammar) (operand : Expr) : Parser (Option Expr) := do
  let start := operand.span.start
  let negated := negatedPredicateAt (← get)
  if negated then advance
  if ← acceptWord "IN" then
    return some (← membership g start operand negated)
  else if ← acceptWord "BETWEEN" then
    let low ← g.tier .bitOr
    expectWord "AND"
    let high ← g.tier .bitOr
    return some (← finish start (.between operand low high negated))
  else if ← acceptWord "LIKE" then
    let pattern ← g.tier .bitOr
    let escape ← afterAccepted (acceptWord "ESCAPE") g.primary
    return some (← finish start (.like operand pattern escape negated))
  else if ← acceptAnyWord ["REGEXP", "RLIKE"] then
    let right ← g.tier .bitOr
    let test ← combine .regexp operand right
    if negated then return some (← finish start (.unary .not test)) else return some test
  else return none

/-- Extends an expression by a predicate. -/
def predicate? (g : Grammar) (operand : Expr) : Parser (Option Expr) := do
  if ← acceptWord "IS" then
    return some (← truthTest operand.span.start operand)
  else
    match ← wordPredicate? g operand with
    | some longer => return some longer
    | none => operation? g .predicate operand

/-- The operator before an operand that a token is. -/
def signOf? (token : Token) : Option UnaryOp :=
  if token.isSymbol "-" then some .minus
  else if token.isSymbol "+" then some .plus
  else if token.isSymbol "~" then some .bitNot
  else if token.isSymbol "!" then some .not
  else none

/-- An operand with the signs before it, or with the collation after it. -/
def signed (g : Grammar) : Parser Expr := do
  let c ← get
  match c.current.bind signOf? with
  | some op =>
    advance
    let operand ← g.tier .unary
    finish (c.tokenStart c.position) (.unary op operand)
  | none =>
    let operand ← g.primary
    if ← acceptWord "COLLATE" then
      let _ ← identifier
    return operand

/-- An expression of the tier of `NOT`. -/
def negation (g : Grammar) : Parser Expr := do
  let c ← get
  if c.isWord "NOT" then
    advance
    let operand ← g.tier .negation
    finish (c.tokenStart c.position) (.unary .not operand)
  else g.tier .predicate

/-- An expression of a tier. -/
def tierRule (g : Grammar) : Tier → Parser Expr
  | .negation => negation g
  | .unary => signed g
  | .predicate => do extend (predicate? g) (← g.tier Tier.predicate.next)
  | tier => do extend (operation? g tier) (← g.tier tier.next)

/-! ### Primary expressions -/

/-- A branch of a choice after its `WHEN`. -/
def branch (g : Grammar) : Parser Branch := do
  let condition ← g.expr
  expectWord "THEN"
  let result ← g.expr
  return { condition, result }

/-- A choice, `CASE ... END`. -/
def choice (g : Grammar) (start : Nat) : Parser Expr := do
  expectWord "CASE"
  let operand ← if (← get).isWord "WHEN" then pure none else some <$> g.expr
  let branches ← collect (afterAccepted (acceptWord "WHEN") (branch g))
  if branches.isEmpty then failHere .caseWithoutWhen
  let otherwise ← afterAccepted (acceptWord "ELSE") g.expr
  expectWord "END"
  finish start (.choice operand branches otherwise)

/-- A cast, `CAST(... AS ...)`. -/
def castCall (g : Grammar) (start : Nat) : Parser Expr := do
  advance
  expectSymbol "("
  let operand ← g.expr
  expectWord "AS"
  let target ← typeName
  expectSymbol ")"
  finish start (.cast operand target)

/-- A conversion, `CONVERT(..., ...)` to a type or `CONVERT(... USING ...)` to a character set. -/
def convertCall (g : Grammar) (start : Nat) : Parser Expr := do
  advance
  expectSymbol "("
  let operand ← g.expr
  let target ←
    if ← acceptWord "USING" then
      let _ ← identifier
      pure SqlType.varchar
    else
      expectSymbol ","
      typeName
  expectSymbol ")"
  finish start (.cast operand target)

/-- A unit such as `DAY` as an argument. -/
def unitArgument : Parser Expr := do
  let c ← get
  let unit ← identifier
  finish (c.tokenStart c.position) (.literal (.text (Text.capitals unit)))

/-- The arguments of a call between its parentheses. -/
structure Arguments where
  args : List Expr
  distinct : Bool := false
  star : Bool := false
  extras : List Expr := []

/-- The arguments of a call without a form of its own. -/
def plainArguments (g : Grammar) : Parser Arguments := do
  if ← acceptSymbol "*" then return { args := [], star := true }
  else
    let distinct ← acceptWord "DISTINCT"
    let args ← commaSeparated g.expr
    let keys ← afterAccepted (acceptPhrase Phrase.orderBy) do
      let keys ← commaSeparated g.expr
      let _ ← acceptAnyWord ["ASC", "DESC"]
      return keys
    let separator ← afterAccepted (acceptWord "SEPARATOR") g.primary
    return { args, distinct, extras := keys.getD [] ++ separator.toList }

/-- The arguments of a call of a function, some of which separate their arguments by words. -/
def arguments (g : Grammar) (name : String) : Parser Arguments := do
  match name with
  | "timestampdiff" | "timestampadd" =>
    let unit ← unitArgument
    expectSymbol ","
    let rest ← commaSeparated g.expr
    return { args := unit :: rest }
  | "extract" =>
    let unit ← unitArgument
    expectWord "FROM"
    let operand ← g.expr
    return { args := [unit, operand] }
  | "position" =>
    let part ← g.tier .bitOr
    expectWord "IN"
    let whole ← g.expr
    return { args := [part, whole] }
  | "substring" | "substr" =>
    let whole ← g.expr
    if ← acceptWord "FROM" then
      let start ← g.expr
      let length ← afterAccepted (acceptWord "FOR") g.expr
      return { args := whole :: start :: length.toList }
    else
      let rest ← collect (afterAccepted (acceptSymbol ",") g.expr)
      return { args := whole :: rest }
  | _ => plainArguments g

/-- A function call. -/
def call (g : Grammar) (start : Nat) : Parser Expr := do
  let name := Text.lower (← identifier)
  expectSymbol "("
  if ← acceptSymbol ")" then finish start (.call name [] false false [])
  else
    let a ← arguments g name
    expectSymbol ")"
    finish start (.call name a.args a.distinct a.star a.extras)

/-- The functions that can be called without parentheses. -/
def bareFunctions : List String :=
  ["CURRENT_DATE", "CURRENT_TIME", "CURRENT_TIMESTAMP", "LOCALTIME", "LOCALTIMESTAMP", "UTC_DATE",
    "UTC_TIME", "UTC_TIMESTAMP"]

/-- A word that is neither a literal nor opens a form of its own: a call, or a column. -/
def plainWord (g : Grammar) (word : String) (start : Nat) (isCall : Bool) : Parser Expr := do
  if isCall then call g start
  else if bareFunctions.contains word then
    advance
    finish start (.call (Text.lower word) [] false false [])
  else if isReserved word then failHere .unexpectedKeyword
  else column

/-- An expression that starts with a word. -/
def word (g : Grammar) (token : Token) : Parser Expr := do
  let c ← get
  let start := token.start
  let word := Text.capitals token.text
  let isCall := (c.peek 1).any (·.isSymbol "(")
  let beforeString := (c.peek 1).any (·.kind == .string)
  match word with
  | "NULL" =>
    advance
    finish start (.literal .null)
  | "TRUE" | "FALSE" =>
    advance
    finish start (.literal (.bool (word == "TRUE")))
  | "CASE" => choice g start
  | "CAST" => if isCall then castCall g start else plainWord g word start isCall
  | "CONVERT" => if isCall then convertCall g start else plainWord g word start isCall
  | "EXISTS" =>
    if isCall then
      advance
      expectSymbol "("
      let query ← g.query
      expectSymbol ")"
      finish start (.existence query)
    else plainWord g word start isCall
  | "INTERVAL" =>
    advance
    let operand ← g.tier .bitOr
    let unit ← identifier
    finish start (.interval operand (Text.capitals unit))
  | "DATE" | "TIME" | "TIMESTAMP" =>
    if beforeString then
      advance
      let operand ← g.primary
      finish start (.cast operand (SqlType.ofDeclaration word))
    else plainWord g word start isCall
  | _ => plainWord g word start isCall

/-- An expression or a query in parentheses. -/
def parenthesized (g : Grammar) (start : Nat) : Parser Expr := do
  advance
  if (← get).isWord "SELECT" then
    let query ← g.query
    expectSymbol ")"
    finish start (.subquery query)
  else
    let inner ← g.expr
    expectSymbol ")"
    return inner

/-- An expression without operators at its outside. -/
def primaryRule (g : Grammar) : Parser Expr := do
  let c ← get
  match c.current with
  | none => failHere .unexpectedEnd
  | some token =>
    match token.kind with
    | .number =>
      advance
      match Literal.ofNumber? token.text with
      | some literal => finish token.start (.literal literal)
      | none => fail .invalidNumber c.position
    | .string =>
      advance
      finish token.start (.literal (.text token.text))
    | .placeholder =>
      advance
      let ordinal ← freshPlaceholder
      finish token.start (.placeholder ordinal)
    | .symbol =>
      if token.text == "(" then parenthesized g token.start else failHere .unexpectedToken
    | .quotedName => column
    | .word => word g token

end SqlSignature.Grammar
