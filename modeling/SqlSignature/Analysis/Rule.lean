import SqlSignature.Analysis.State
import SqlSignature.Function
/-!
# SqlSignature.Analysis.Rule

What the form of an expression says about types, once its operands have been analysed.
-/

namespace SqlSignature

/-- Whether an expression is a span of time. -/
def Expr.isInterval (e : Expr) : Bool :=
  match e.form with
  | .interval _ _ => true
  | _ => false

namespace Analysis

/-- The variable of an expression, which has a type. -/
def fixed (e : Expr) (type : SqlType) : Analysis TypeVar := do
  let var ← varOf e
  fix var type
  return var

/-- The variable of an expression that is true or false. -/
def truth (e : Expr) : Analysis TypeVar := fixed e .tinyInt

/-- Looks up the column that an expression names. -/
def bindColumn (e : Expr) (column : ColumnRef) : Analysis TypeVar := do
  let reference ← ofExcept ((← get).scopes.resolve column)
  modify fun s => { s with references := (e.id, reference) :: s.references }
  return reference.var

/-- Expects a type of each of several variables. -/
def expectAll (type : SqlType) : List TypeVar → Analysis Unit
  | [] => pure ()
  | var :: rest => do
    expect var type
    expectAll type rest

/-- An operator with one operand. Signs keep the type of the operand. -/
def unaryRule (e : Expr) (op : UnaryOp) (operand : TypeVar) : Analysis TypeVar := do
  let var ← varOf e
  match op with
  | .minus | .plus =>
    expect operand .double
    constrain (.derive var (.sameAs 0) [operand])
  | .not => fix var .tinyInt
  | .bitNot =>
    expect operand .bigInt
    fix var .bigInt
  return var

/-- The operators as far as types are concerned. -/
inductive BinaryRule where
  /-- Both operands are expected to have a type, and the value has a type. -/
  | typed (operands value : SqlType)
  /-- The type of the value follows from those of numeric operands. -/
  | numeric (rule : DeriveRule)
  /-- The operands are compared. -/
  | comparison
  /-- The operands are truth values. -/
  | logical
  deriving Repr, DecidableEq

/-- The rule of an operator. -/
def BinaryRule.of (op : BinaryOp) : BinaryRule :=
  match op with
  | .add | .sub | .mul => .numeric .arithmetic
  | .div => .numeric .division
  | .mod => .numeric .promote
  | .intDiv => .typed .double .bigInt
  | .concat => .typed .varchar .varchar
  | .regexp => .typed .varchar .tinyInt
  | op =>
    if op.isBitwise then .typed .bigInt .bigInt
    else if op.isComparison then .comparison
    else .logical

/-- An operator with two operands. -/
def binaryRule (e : Expr) (op : BinaryOp) (left right : TypeVar) : Analysis TypeVar := do
  let var ← varOf e
  match BinaryRule.of op with
  | .typed operands value =>
    expectAll operands [left, right]
    fix var value
  | .numeric rule =>
    expectAll .double [left, right]
    constrain (.derive var rule [left, right])
  | .comparison =>
    equate left right
    fix var .tinyInt
  | .logical => fix var .tinyInt
  return var

/-- A date plus or minus a span of time has the type of the date. -/
def shiftRule (e : Expr) (datePosition : Nat) (left right : TypeVar) : Analysis TypeVar := do
  let var ← varOf e
  constrain (.derive var (.sameAs datePosition) [left, right])
  return var

/-- Equates a variable with each of several others. -/
def equateAll (var : TypeVar) : List TypeVar → Analysis Unit
  | [] => pure ()
  | other :: rest => do
    equate var other
    equateAll var rest

/-- The variable of an expression with the least common type of others. -/
def widened (e : Expr) (args : List TypeVar) : Analysis TypeVar := do
  let var ← varOf e
  constrain (.widen var args)
  return var

/-! ### Calls -/

/-- Asks the resolver for the type of a call that no signature covers. Without an answer the type is
`unknown`. -/
def askResolver (input : AnalysisInput) (e : Expr) (var : TypeVar) : Analysis Unit := do
  match input.resolver with
  | none => fix var .unknown
  | some resolver =>
    let expression := e.text input.text
    let tables := tablesText (← get)
    let answer := resolver expression tables
    modify fun s => { s with calls := s.calls.push { expression, tables, answer } }
    match answer with
    | .ok type =>
      fix var type.promoted
      match type with
      | .oneOf _ => modify fun s => { s with typeSets := (e.id, type) :: s.typeSets }
      | .single _ => pure ()
    | .error _ => fix var .unknown

/-- Expects of arguments, from a position on, what a signature does. -/
def expectArgs (rule : ArgRule) (position : Nat) : List TypeVar → Analysis Unit
  | [] => pure ()
  | var :: rest => do
    match rule.expected position with
    | some type => expect var type
    | none => pure ()
    expectArgs rule (position + 1) rest

/-- Notes that those of several expressions that are bound values can be null. -/
def markNullableAll : List Expr → Analysis Unit
  | [] => pure ()
  | e :: rest => do
    markNullableExpr e
    markNullableAll rest

/-- The type of a call by the signature of the function. -/
def applyReturn (var : TypeVar) (rule : ReturnRule) (args : List TypeVar) : Analysis Unit :=
  match rule with
  | .fixed type => fix var type
  | .sameAsArg position =>
    if position < args.length then constrain (.derive var (.sameAs position) args)
    else fix var .unknown
  | .widen => constrain (.widen var args)
  | .widenFrom position => constrain (.widen var (args.drop position))
  | .sum => constrain (.derive var .sum args)

/-- A call of a function. -/
def callRule (input : AnalysisInput) (e : Expr) (name : String) (args : List Expr)
    (argVars : List TypeVar) : Analysis TypeVar := do
  let var ← varOf e
  match Function.signature? name with
  | none => askResolver input e var
  | some signature =>
    expectArgs signature.args 0 argVars
    if signature.nullableArgs then markNullableAll args
    applyReturn var signature.returns argVars
  return var

end Analysis

end SqlSignature
