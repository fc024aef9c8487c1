import SqlSignature.Parser
/-!
# SqlSignature.Grammar

What the parts of the grammar need of each other. Expressions contain queries and queries contain
expressions; each rule is written over a `Grammar`, the parsers for what lies inside, and
`SqlSignature.Grammar.Knot` ties them together.
-/

namespace SqlSignature

/-- The tiers of operators, from the loosest to the tightest. -/
inductive Tier where
  | disjunction | exclusion | conjunction | negation | predicate
  | bitOr | bitAnd | shift | sum | product | bitXor | unary
  deriving Repr, DecidableEq

namespace Tier

/-- The tier whose expressions are the operands of a tier. -/
def next : Tier → Tier
  | disjunction => exclusion
  | exclusion => conjunction
  | conjunction => negation
  | negation => predicate
  | predicate => bitOr
  | bitOr => bitAnd
  | bitAnd => shift
  | shift => sum
  | sum => product
  | product => bitXor
  | bitXor => unary
  | unary => unary

/-- The words that are left-associative operators of a tier. -/
def words : Tier → List (String × BinaryOp)
  | disjunction => [("OR", .or)]
  | exclusion => [("XOR", .xor)]
  | conjunction => [("AND", .and)]
  | product => [("DIV", .intDiv), ("MOD", .mod)]
  | _ => []

/-- The symbols that are left-associative operators of a tier. -/
def symbols : Tier → List (String × BinaryOp)
  | conjunction => [("&&", .and)]
  | predicate =>
    [("=", .eq), ("<>", .notEq), ("!=", .notEq), ("<", .lt), ("<=", .ltEq), (">", .gt),
      (">=", .gtEq), ("<=>", .nullSafeEq)]
  | bitOr => [("|", .bitOr)]
  | bitAnd => [("&", .bitAnd)]
  | shift => [("<<", .shiftLeft), (">>", .shiftRight)]
  | sum => [("+", .add), ("-", .sub), ("||", .concat)]
  | product => [("*", .mul), ("/", .div), ("%", .mod)]
  | bitXor => [("^", .bitXor)]
  | _ => []

/-- The operator of a tier that a token is. -/
def operator? (tier : Tier) (token : Token) : Option BinaryOp :=
  ((tier.words.find? fun (word, _) => token.isWord word).or
    (tier.symbols.find? fun (symbol, _) => token.isSymbol symbol)).map Prod.snd

end Tier

/-- The parsers for what lies inside an expression or a query. -/
structure Grammar where
  tier : Tier → Parser Expr
  primary : Parser Expr
  spec : Parser QuerySpec
  query : Parser Query

/-- An expression of any kind. -/
def Grammar.expr (g : Grammar) : Parser Expr := g.tier .disjunction

end SqlSignature
