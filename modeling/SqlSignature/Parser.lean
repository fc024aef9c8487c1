import SqlSignature.Expr
import SqlSignature.Keyword
/-!
# SqlSignature.Parser

Parsers are state transformers on a cursor. A parser that fails leaves the cursor at the place
where it failed.
-/

namespace SqlSignature

/-- A parser. -/
abbrev Parser := EStateM ParseError Cursor

namespace Parser

/-- Fails with a fault from a token up to the next token. -/
def fail {α : Type} (fault : ParseFault) (pivot : Nat) : Parser α := do
  throw ((← get).errorFrom fault pivot)

/-- Fails with a fault at the next token. -/
def failHere {α : Type} (fault : ParseFault) : Parser α := do
  fail fault (← get).position

/-! ### Tokens -/

/-- Passes a token. -/
def advance : Parser Unit := modify Cursor.next

/-- Passes a word if it is next. -/
def acceptWord (word : String) : Parser Bool := do
  if (← get).isWord word then
    advance
    return true
  else return false

/-- Passes a symbol if it is next. -/
def acceptSymbol (symbol : String) : Parser Bool := do
  if (← get).isSymbol symbol then
    advance
    return true
  else return false

/-- Passes a phrase if it is next. -/
def acceptPhrase (phrase : KeywordPhrase) : Parser Bool := do
  match phrase.matched (← get) with
  | some length =>
    modify (·.skip length)
    return true
  | none => return false

/-- Passes the first of some words if it is next. -/
def acceptAnyWord : List String → Parser Bool
  | [] => return false
  | word :: rest => do
    if ← acceptWord word then return true else acceptAnyWord rest

/-- Passes a word that has to be next. -/
def expectWord (word : String) : Parser Unit := do
  unless ← acceptWord word do
    failHere (.expectedWord word)

/-- Passes a symbol that has to be next. -/
def expectSymbol (symbol : String) : Parser Unit := do
  unless ← acceptSymbol symbol do
    failHere (.expectedSymbol symbol)

/-- Passes a name, plain or quoted, that has to be next. -/
def identifier : Parser String := do
  match (← get).current with
  | some token =>
    if token.isIdentifier then
      advance
      return token.text
    else failHere .expectedIdentifier
  | none => failHere .expectedIdentifier

/-- Takes the ordinal of the next bound value. -/
def freshPlaceholder : Parser Nat :=
  modifyGet fun c => (c.placeholders, { c with placeholders := c.placeholders + 1 })

/-! ### Nodes -/

/-- Builds a node with a span. -/
def build (span : Span) (form : ExprForm) : Parser Expr :=
  modifyGet fun c => (.node c.nodes span form, { c with nodes := c.nodes + 1 })

/-- Builds a node that reaches from an offset to the last token that was passed. -/
def finish (start : Nat) (form : ExprForm) : Parser Expr := do
  build ((← get).spanFromOffset start) form

/-- Builds a binary operation, which reaches over both operands. -/
def combine (op : BinaryOp) (left right : Expr) : Parser Expr :=
  build (left.span.join right.span) (.binary op left right)

/-! ### Repetition -/

/-- More rounds than any repetition in a text can make, since a round passes a token. -/
def rounds : Parser Nat := do
  return (← get).tokens.size + 1

/-- Runs a parser until it has no result, at most a number of times. -/
def collectUpTo {α : Type} (parser : Parser (Option α)) : Nat → Parser (List α)
  | 0 => failHere .nestingTooDeep
  | n + 1 => do
    match ← parser with
    | some first =>
      let rest ← collectUpTo parser n
      return first :: rest
    | none => return []

/-- Runs a parser until it has no result. -/
def collect {α : Type} (parser : Parser (Option α)) : Parser (List α) := do
  collectUpTo parser (← rounds)

/-- Runs a parser after a word or symbol, if that is next. -/
def afterAccepted {α : Type} (announced : Parser Bool) (parser : Parser α) : Parser (Option α) := do
  if ← announced then return some (← parser) else return none

/-- One or more things with commas between them. -/
def commaSeparated {α : Type} (parser : Parser α) : Parser (List α) := do
  let first ← parser
  let rest ← collect (afterAccepted (acceptSymbol ",") parser)
  return first :: rest

/-- Extends an expression until it cannot be extended, at most a number of times. -/
def extendUpTo (step : Expr → Parser (Option Expr)) : Nat → Expr → Parser Expr
  | 0, _ => failHere .nestingTooDeep
  | n + 1, e => do
    match ← step e with
    | some longer => extendUpTo step n longer
    | none => return e

/-- Extends an expression until it cannot be extended. -/
def extend (step : Expr → Parser (Option Expr)) (e : Expr) : Parser Expr := do
  extendUpTo step (← rounds) e

/-- Passes tokens up to a symbol or the end, at most a number of tokens. -/
def skipToUpTo (symbol : String) : Nat → Parser Unit
  | 0 => return ()
  | n + 1 => do
    let c ← get
    unless c.atEnd || c.isSymbol symbol do
      advance
      skipToUpTo symbol n

/-- Passes tokens up to a symbol or the end. -/
def skipTo (symbol : String) : Parser Unit := do
  skipToUpTo symbol (← rounds)

end Parser

end SqlSignature
