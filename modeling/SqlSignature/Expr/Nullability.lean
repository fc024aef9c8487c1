import SqlSignature.Expr
import SqlSignature.Function
/-!
# SqlSignature.Expr.Nullability

Whether the value of an expression is certainly not null, given the same of the columns and bound
values in it.
-/

namespace SqlSignature

/-- What is known of the leaves of an expression. -/
structure NullFacts where
  /-- Whether the column that a node names is certainly not null. -/
  column : Nat → Bool
  /-- Whether the bound value with an ordinal is certainly not null. -/
  placeholder : Nat → Bool

mutual

/-- Whether the value of an expression is certainly not null. -/
def Expr.notNull (facts : NullFacts) : Expr → Bool
  | .node id _ form => form.notNull facts id

/-- Whether the value of a node with a number and a form is certainly not null. -/
def ExprForm.notNull (facts : NullFacts) (number : Nat) : ExprForm → Bool
  | .literal value => !value.isNull
  | .column _ => facts.column number
  | .placeholder ordinal => facts.placeholder ordinal
  | .unary _ operand | .cast operand _ | .interval operand _ => operand.notNull facts
  | .binary op left right =>
    decide (op = .nullSafeEq) || (left.notNull facts && right.notNull facts)
  | .isNull _ _ | .isTruth _ _ _ | .existence _ => true
  | .inList operand list _ => operand.notNull facts && (Expr.notNullList facts list).all id
  | .inQuery _ _ _ | .subquery _ => false
  | .between operand low high _ =>
    operand.notNull facts && low.notNull facts && high.notNull facts
  | .like operand pattern _ _ => operand.notNull facts && pattern.notNull facts
  | .choice _ branches otherwise =>
    Branch.notNullAll facts branches && Expr.notNullOption facts otherwise
  | .call name args _ _ _ =>
    (Function.signature? name).any (·.notNull.evaluate (Expr.notNullList facts args))

/-- For each of several expressions whether it is certainly not null. -/
def Expr.notNullList (facts : NullFacts) : List Expr → List Bool
  | [] => []
  | e :: rest => e.notNull facts :: Expr.notNullList facts rest

/-- The same for an expression that may be left out. What is left out is null. -/
def Expr.notNullOption (facts : NullFacts) : Option Expr → Bool
  | none => false
  | some e => e.notNull facts

/-- Whether all results of the branches are certainly not null. -/
def Branch.notNullAll (facts : NullFacts) : List Branch → Bool
  | [] => true
  | ⟨_, result⟩ :: rest => result.notNull facts && Branch.notNullAll facts rest

end

end SqlSignature
