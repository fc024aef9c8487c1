/-!
# SqlSignature.Operator

The operators of expressions, how they are written, and the classes that typing and nullability
tell apart.
-/

namespace SqlSignature

/-- An operator before its operand. -/
inductive UnaryOp where
  | minus | plus | not | bitNot
  deriving Repr, DecidableEq

/-- An operator between its operands. -/
inductive BinaryOp where
  | add | sub | mul | div | intDiv | mod
  | bitOr | bitAnd | bitXor | shiftLeft | shiftRight
  | concat
  | eq | notEq | lt | ltEq | gt | gtEq
  /-- The equality that holds between two nulls. -/
  | nullSafeEq
  | regexp
  | and | or | xor
  deriving Repr, DecidableEq

/-- How an operator is written. -/
def UnaryOp.display : UnaryOp → String
  | minus => "-"
  | plus => "+"
  | not => "NOT"
  | bitNot => "~"

namespace BinaryOp

def isComparison : BinaryOp → Bool
  | eq | notEq | lt | ltEq | gt | gtEq | nullSafeEq => true
  | _ => false

def isArithmetic : BinaryOp → Bool
  | add | sub | mul | div | intDiv | mod => true
  | _ => false

def isBitwise : BinaryOp → Bool
  | bitOr | bitAnd | bitXor | shiftLeft | shiftRight => true
  | _ => false

def isLogical : BinaryOp → Bool
  | and | or | xor => true
  | _ => false

/-- How an operator is written. -/
def display : BinaryOp → String
  | add => "+"
  | sub => "-"
  | mul => "*"
  | div => "/"
  | intDiv => "DIV"
  | mod => "%"
  | bitOr => "|"
  | bitAnd => "&"
  | bitXor => "^"
  | shiftLeft => "<<"
  | shiftRight => ">>"
  | concat => "||"
  | eq => "="
  | notEq => "<>"
  | lt => "<"
  | ltEq => "<="
  | gt => ">"
  | gtEq => ">="
  | nullSafeEq => "<=>"
  | regexp => "REGEXP"
  | and => "AND"
  | or => "OR"
  | xor => "XOR"

end BinaryOp

end SqlSignature
