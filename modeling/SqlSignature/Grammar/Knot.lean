import SqlSignature.Grammar.Expression
import SqlSignature.Grammar.Query
/-!
# SqlSignature.Grammar.Knot

The grammar itself: its rules, each over the same grammar with one level of nesting less.
-/

namespace SqlSignature.Grammar

/-- The grammar for texts that nest at most `depth` levels. -/
def upTo : (depth : Nat) → Grammar
  | 0 =>
    { tier := fun _ => Parser.failHere .nestingTooDeep, primary := Parser.failHere .nestingTooDeep
      spec := Parser.failHere .nestingTooDeep, query := Parser.failHere .nestingTooDeep }
  | depth + 1 =>
    let g := upTo depth
    { tier := tierRule g, primary := primaryRule g, spec := specRule g, query := queryRule g }

/-- Levels that suffice for a number of tokens: a token opens fewer than sixteen. -/
def depthFor (tokens : Nat) : Nat := 16 * (tokens + 1)

/-- The grammar for the tokens of a cursor. -/
def ofCursor (c : Cursor) : Grammar := upTo (depthFor c.tokens.size)

/-- An expression. -/
def parseExpr : Parser Expr := do
  (ofCursor (← get)).expr

/-- An expression without operators at its outside. -/
def parsePrimary : Parser Expr := do
  (ofCursor (← get)).primary

@[simp] theorem upTo_tier (depth : Nat) : (upTo (depth + 1)).tier = tierRule (upTo depth) := rfl
@[simp] theorem upTo_primary (depth : Nat) :
    (upTo (depth + 1)).primary = primaryRule (upTo depth) := rfl
@[simp] theorem upTo_spec (depth : Nat) : (upTo (depth + 1)).spec = specRule (upTo depth) := rfl
@[simp] theorem upTo_query (depth : Nat) : (upTo (depth + 1)).query = queryRule (upTo depth) := rfl

end SqlSignature.Grammar
