import SqlSignature.Expr.Traversal
/-!
# SqlSignature.Expr.NullRejection

Which columns a predicate shows to be not null. A row is kept only if the predicate is true, and a
comparison is true only if neither side is null; so a column whose null would make a side null is
not null in a row that is kept.
-/

namespace SqlSignature

/-- The columns at the outside of an operand whose null makes the operand null. -/
def Expr.strictColumns : Expr → List Expr
  | .node id span (.column ref) => [.node id span (.column ref)]
  | .node _ _ (.binary op left right) =>
    if op.isArithmetic || op.isBitwise then left.strictColumns ++ right.strictColumns else []
  | .node _ _ (.unary .not _) => []
  | .node _ _ (.unary _ operand) => operand.strictColumns
  | _ => []

/-- The columns whose null keeps a single conjunct from being true. -/
def Expr.rejectedByConjunct (e : Expr) : List Expr :=
  match e.form with
  | .binary op left right =>
    if (op.isComparison && op != .nullSafeEq) || op == .regexp then
      left.strictColumns ++ right.strictColumns
    else []
  | .between operand low high _ =>
    operand.strictColumns ++ low.strictColumns ++ high.strictColumns
  | .inList operand _ _ | .inQuery operand _ _ => operand.strictColumns
  | .like operand pattern _ _ => operand.strictColumns ++ pattern.strictColumns
  | .isNull operand true => operand.strictColumns
  | _ => []

/-- The columns that are not null in a row for which the predicate is true. -/
def Expr.nullRejected (e : Expr) : List Expr := e.conjuncts.flatMap Expr.rejectedByConjunct

end SqlSignature
