import SqlSignature.Expr
/-!
# SqlSignature.Proofs.Evaluation

The values of expressions. `none` is the null of values and the unknown of truth values. `AND`, `OR`
and `NOT` follow Kleene's tables; comparisons, arithmetic, bitwise operators, `LIKE` and `REGEXP`
are null as soon as an operand is; `BETWEEN` and `IN` are read as what they abbreviate, and `IS` is
two-valued. Whatever else an expression can be made of has a value that the interpretation picks.
-/

namespace SqlSignature

/-! ### Truth -/

/-- A truth value of three-valued logic. -/
abbrev Truth := Option Bool

namespace Truth

/-- Negation, if there is one. -/
def negate (negated : Bool) (a : Truth) : Truth := a.map (· != negated)

def and : Truth → Truth → Truth
  | some false, _ | _, some false => some false
  | some true, some true => some true
  | _, _ => none

def or : Truth → Truth → Truth
  | some true, _ | _, some true => some true
  | some false, some false => some false
  | _, _ => none

def xor (a b : Truth) : Truth := a.bind fun x => b.map (x != ·)

/-- A disjunction is false when it is empty. -/
def any (truths : List Truth) : Truth := truths.foldr or (some false)

@[simp] theorem negate_false (a : Truth) : a.negate false = a := by
  cases a <;> simp [negate]

@[simp] theorem negate_none (negated : Bool) : negate negated none = none := rfl

theorem and_eq_true {a b : Truth} : a.and b = some true ↔ a = some true ∧ b = some true := by
  rcases a with _ | _ | _ <;> rcases b with _ | _ | _ <;> simp [and]

/-- A disjunction of unknowns is unknown, unless there are none. -/
theorem any_replicate_none (n : Nat) : any (List.replicate (n + 1) none) = none := by
  induction n with
  | zero => rfl
  | succ n ih =>
    rw [List.replicate_succ]
    show or none (any (List.replicate (n + 1) none)) = none
    rw [ih]
    rfl

end Truth

/-! ### Interpretations -/

/-- Whether a null operand makes the value null: so it is for arithmetic and bitwise operators, for
comparisons other than `<=>` and for `REGEXP`. -/
def BinaryOp.propagatesNull (op : BinaryOp) : Bool :=
  (op.isArithmetic || op.isBitwise) || ((op.isComparison && op != .nullSafeEq) || op == .regexp)

/-- What the rules of evaluation leave open. -/
structure Interpretation (V : Type) where
  /-- Whether a value counts as true. -/
  truth : V → Bool
  ofBool : Bool → V
  truth_ofBool : ∀ b, truth (ofBool b) = b
  /-- The value of a literal other than `NULL`. -/
  constant : Literal → V
  /-- Signs and bitwise complement of a value. -/
  unary : UnaryOp → V → Option V
  /-- Comparisons, arithmetic, bitwise operators and `REGEXP` between two values. -/
  binary : BinaryOp → V → V → Option V
  concat : Option V → Option V → Option V
  /-- Whether a text fits a pattern, with an escape character if there is one. -/
  like : V → V → Option V → Option Bool
  /-- The values that a query gives in its first column. -/
  rows : Query → List (Option V)
  /-- The values of choices, calls, casts, intervals and of queries in the place of a value. -/
  other : Expr → Option V

/-- The values of columns and of bound values. -/
structure Valuation (V : Type) where
  column : ColumnRef → Option V
  placeholder : Nat → Option V

namespace Interpretation

variable {V : Type} (I : Interpretation V)

def truthOf (v : Option V) : Truth := v.map I.truth

def ofTruth (a : Truth) : Option V := a.map I.ofBool

@[simp] theorem truthOf_ofTruth (a : Truth) : I.truthOf (I.ofTruth a) = a := by
  cases a <;> simp [truthOf, ofTruth, I.truth_ofBool]

@[simp] theorem truthOf_none : I.truthOf none = none := rfl

/-- An operator between two operands that is null if one of them is. -/
def strict (op : BinaryOp) (a b : Option V) : Option V :=
  a.bind fun x => b.bind fun y => I.binary op x y

@[simp] theorem strict_none_left (op : BinaryOp) (b : Option V) : I.strict op none b = none := rfl

@[simp] theorem strict_none_right (op : BinaryOp) (a : Option V) : I.strict op a none = none := by
  cases a <;> rfl

/-- The equality that holds between two nulls, and never between a null and a value. -/
def sameValue : Option V → Option V → Truth
  | none, none => some true
  | some x, some y => I.truthOf (I.binary .eq x y)
  | _, _ => some false

def binaryValue (op : BinaryOp) (a b : Option V) : Option V :=
  match op with
  | .and => I.ofTruth ((I.truthOf a).and (I.truthOf b))
  | .or => I.ofTruth ((I.truthOf a).or (I.truthOf b))
  | .xor => I.ofTruth ((I.truthOf a).xor (I.truthOf b))
  | .nullSafeEq => I.ofTruth (I.sameValue a b)
  | .concat => I.concat a b
  | op => I.strict op a b

/-- Membership is the disjunction of the equalities. -/
def member (a : Option V) (values : List (Option V)) : Truth :=
  Truth.any (values.map fun b => I.truthOf (I.strict .eq a b))

/-- Between two bounds: not below the one and not above the other. -/
def within (a low high : Option V) : Truth :=
  (I.truthOf (I.strict .gtEq a low)).and (I.truthOf (I.strict .ltEq a high))

/-- Whether a text fits a pattern. `escape` is `some none` where no escape character is given. -/
def fits (a pattern : Option V) (escape : Option (Option V)) : Truth :=
  a.bind fun x => pattern.bind fun y => escape.bind fun z => I.like x y z

theorem binaryValue_eq_strict {op : BinaryOp} (a b : Option V) (h : op.propagatesNull) :
    I.binaryValue op a b = I.strict op a b := by
  cases op <;> simp [BinaryOp.propagatesNull, BinaryOp.isArithmetic, BinaryOp.isBitwise,
    BinaryOp.isComparison] at h <;> rfl

/-- Nothing is known to be a member when the value is null, unless there is nothing to compare. -/
theorem member_none {values : List (Option V)} (h : values ≠ []) : I.member none values = none := by
  obtain ⟨v, rest, rfl⟩ := List.exists_cons_of_ne_nil h
  unfold member
  simp only [strict_none_left, truthOf_none, List.map_const', List.length_cons]
  exact Truth.any_replicate_none rest.length

end Interpretation

/-! ### Expressions -/

mutual

/-- The value of an expression. -/
def Expr.eval {V : Type} (I : Interpretation V) (ν : Valuation V) : Expr → Option V
  | .node id span form => form.eval I ν (.node id span form)

/-- The value of an expression of a form. -/
def ExprForm.eval {V : Type} (I : Interpretation V) (ν : Valuation V) (e : Expr) :
    ExprForm → Option V
  | .literal value => if value.isNull then none else some (I.constant value)
  | .column ref => ν.column ref
  | .placeholder ordinal => ν.placeholder ordinal
  | .unary .not operand => I.ofTruth ((I.truthOf (operand.eval I ν)).negate true)
  | .unary op operand => (operand.eval I ν).bind (I.unary op)
  | .binary op left right => I.binaryValue op (left.eval I ν) (right.eval I ν)
  | .isNull operand negated => some (I.ofBool ((operand.eval I ν).isNone != negated))
  | .isTruth operand value negated =>
    some (I.ofBool ((I.truthOf (operand.eval I ν) == some value) != negated))
  | .inList operand list negated =>
    I.ofTruth ((I.member (operand.eval I ν) (Expr.evalList I ν list)).negate negated)
  | .inQuery operand query negated =>
    I.ofTruth ((I.member (operand.eval I ν) (I.rows query)).negate negated)
  | .between operand low high negated =>
    I.ofTruth ((I.within (operand.eval I ν) (low.eval I ν) (high.eval I ν)).negate negated)
  | .like operand pattern escape negated =>
    I.ofTruth ((I.fits (operand.eval I ν) (pattern.eval I ν)
      (Expr.evalOption I ν escape)).negate negated)
  | .choice _ _ _ | .call _ _ _ _ _ | .cast _ _ | .interval _ _ => I.other e
  | .existence _ | .subquery _ => I.other e

def Expr.evalList {V : Type} (I : Interpretation V) (ν : Valuation V) :
    List Expr → List (Option V)
  | [] => []
  | e :: rest => e.eval I ν :: Expr.evalList I ν rest

/-- The value of an expression that may be left out; null only if it is there and null. -/
def Expr.evalOption {V : Type} (I : Interpretation V) (ν : Valuation V) :
    Option Expr → Option (Option V)
  | none => some none
  | some e => (e.eval I ν).map some

end

/-- Whether a predicate is true. -/
def Expr.Holds {V : Type} (I : Interpretation V) (ν : Valuation V) (e : Expr) : Prop :=
  I.truthOf (e.eval I ν) = some true

theorem Expr.evalList_ne_nil {V : Type} {I : Interpretation V} {ν : Valuation V}
    {list : List Expr} (h : list ≠ []) : Expr.evalList I ν list ≠ [] := by
  obtain ⟨e, rest, rfl⟩ := List.exists_cons_of_ne_nil h
  simp [Expr.evalList]

end SqlSignature
