import SqlSignature.Inference.TypeVars
/-!
# SqlSignature.Inference.Solver

Constraints between type variables, and the types that they lead to. Solving goes forward until
nothing changes: equal variables are joined, and derived and widened types are computed from their
arguments. Then it goes back once, from targets to arguments that have no type yet, or else from
what is expected of a variable; and forward again. Free variables without a type take a default in
the end, all others the type `unknown`.
-/

namespace SqlSignature

/-- How a type follows from the types of arguments. -/
inductive DeriveRule where
  | arithmetic
  | division
  /-- The least common type. -/
  | promote
  /-- The type of a sum: `double` for approximate and textual arguments, else `decimal`. -/
  | sum
  /-- The type of the argument at a position. -/
  | sameAs (position : Nat)
  deriving Repr, DecidableEq

/-- The types, if all are there. -/
def allTypes : List (Option SqlType) → Option (List SqlType)
  | [] => some []
  | some t :: rest => (allTypes rest).map (t :: ·)
  | none :: _ => none

/-- Combines one or more types from left to right. -/
def combineTypes (f : SqlType → SqlType → SqlType) : List SqlType → Option SqlType
  | [] => none
  | first :: rest => some (rest.foldl f first)

/-- The type that a rule derives, if its arguments suffice. -/
def DeriveRule.apply (rule : DeriveRule) (args : List (Option SqlType)) : Option SqlType :=
  match rule with
  | arithmetic => (allTypes args).bind (combineTypes SqlType.arithmetic)
  | division => (allTypes args).bind (combineTypes SqlType.division)
  | promote => (allTypes args).bind (combineTypes SqlType.promote)
  | sum =>
    match args with
    | some t :: _ =>
      if t.isApproximate || t.isTextual then some .double
      else if t.isUnknown then some .unknown
      else some .decimal
    | _ => none
  | sameAs position => (args[position]?).bind id

/-- A constraint on types. -/
inductive Constraint where
  /-- A variable has a type. Several such types are promoted. -/
  | fix (var : TypeVar) (type : SqlType)
  /-- Two variables stand for one value. They are joined only if one of them is free, so that two
  columns keep their own types. -/
  | equal (a b : TypeVar)
  | derive (target : TypeVar) (rule : DeriveRule) (args : List TypeVar)
  /-- The target has the least common type of the arguments that have a type. -/
  | widen (target : TypeVar) (args : List TypeVar)
  /-- A free variable takes a type if nothing else gives it one. -/
  | expect (var : TypeVar) (type : SqlType)
  /-- A variable takes the type of another if nothing else gives it one. -/
  | hint (var source : TypeVar)
  deriving Repr, DecidableEq

/-- Whether a type says something about the variables it flows to. -/
def SqlType.isInformative : SqlType → Bool
  | .null | .unknown => false
  | _ => true

namespace TypeVars

/-! ### Going forward -/

/-- Joins two variables that stand for one value, unless neither is free. A free variable is not
joined to the literal `NULL`, which says nothing about it. -/
def equate (vs : TypeVars) (a b : TypeVar) : TypeVars × Bool :=
  if vs.same a b then (vs, false)
  else
    match vs.isFree a, vs.isFree b with
    | false, false => (vs, false)
    | true, true => (vs.union a b, true)
    | true, false => if vs.type? b = some .null then (vs, false) else (vs.union a b, true)
    | false, true => if vs.type? a = some .null then (vs, false) else (vs.union a b, true)

/-- Sets a type if there is one. -/
def setSome (vs : TypeVars) (v : TypeVar) : Option SqlType → TypeVars × Bool
  | some type => vs.set v type
  | none => (vs, false)

/-- Applies one constraint forward. -/
def forwardStep (vs : TypeVars) : Constraint → TypeVars × Bool
  | .equal a b => vs.equate a b
  | .derive target rule args => vs.setSome target (rule.apply (args.map vs.type?))
  | .widen target args => vs.setSome target (combineTypes SqlType.promote (args.filterMap vs.type?))
  | .fix _ _ | .expect _ _ | .hint _ _ => (vs, false)

/-! ### Going back -/

/-- Whether a variable is free and has no type. -/
def isPending (vs : TypeVars) (v : TypeVar) : Bool := vs.isFree v && (vs.type? v).isNone

/-- Sets the types of several variables. -/
def setAll (vs : TypeVars) (type : SqlType) : List TypeVar → TypeVars × Bool
  | [] => (vs, false)
  | v :: rest =>
    let (vs, changed) := vs.set v type
    let (vs, changedRest) := vs.setAll type rest
    (vs, changed || changedRest)

/-- The arguments that a target flows back to. -/
def backwardArgs (rule : DeriveRule) (args : List TypeVar) : List TypeVar :=
  match rule with
  | .sum => []
  | .sameAs position => args[position]?.toList
  | _ => args

/-- Lets the type of a target flow back to those arguments that wait for one. -/
def flowBack (vs : TypeVars) (target : TypeVar) (args : List TypeVar) : TypeVars × Bool :=
  match vs.type? target with
  | some type =>
    if type.isInformative then vs.setAll type (args.filter vs.isPending) else (vs, false)
  | none => (vs, false)

/-- Applies one constraint backward. -/
def backwardStep (vs : TypeVars) : Constraint → TypeVars × Bool
  | .widen target args => vs.flowBack target args
  | .derive target rule args => vs.flowBack target (backwardArgs rule args)
  | .hint var source =>
    match vs.type? var, vs.type? source with
    | none, some type => if type.isInformative then vs.set var type else (vs, false)
    | _, _ => (vs, false)
  | _ => (vs, false)

/-- Gives a variable the type that is expected of it, if it waits for one. -/
def expectationStep (vs : TypeVars) : Constraint → TypeVars × Bool
  | .expect var type =>
    if vs.isPending var && type.isInformative then vs.set var type else (vs, false)
  | _ => (vs, false)

/-- Widens a variable by the type it is fixed to. -/
def fixStep (vs : TypeVars) : Constraint → TypeVars × Bool
  | .fix var type => vs.widen var type
  | _ => (vs, false)

/-! ### Passes over all constraints -/

/-- Applies a step for every constraint in order, and tells whether any changed anything. -/
def pass (step : TypeVars → Constraint → TypeVars × Bool) (constraints : List Constraint)
    (vs : TypeVars) : TypeVars × Bool :=
  constraints.foldl
    (fun (vs, changed) c =>
      let (vs, changedNow) := step vs c
      (vs, changed || changedNow))
    (vs, false)

/-- One pass forward. -/
def forward (constraints : List Constraint) (vs : TypeVars) : TypeVars × Bool :=
  pass forwardStep constraints vs

/-- Goes forward until a pass changes nothing, at most a number of times. -/
def settleUpTo (constraints : List Constraint) : Nat → TypeVars → TypeVars
  | 0, vs => vs
  | n + 1, vs =>
    let (next, changed) := vs.forward constraints
    if changed then settleUpTo constraints n next else next

/-- The number of states that passes forward can run through: classes are joined fewer times than
there are variables, and between two joins each variable has one of 29 types or none. -/
def stateCount (n : Nat) : Nat := (n + 1) * Nat.pow 30 n

/-- Goes forward until a pass changes nothing. A run that comes to rest passes through no state
twice, so the bound never cuts it short. -/
def settle (constraints : List Constraint) (vs : TypeVars) : TypeVars :=
  settleUpTo constraints (stateCount vs.size) vs

/-- Goes back: from targets to arguments, and if that changes nothing, from expectations. -/
def backward (constraints : List Constraint) (vs : TypeVars) : TypeVars × Bool :=
  let (next, changed) := pass backwardStep constraints vs
  if changed then (next, true) else pass expectationStep constraints next

/-- Alternates going forward and back, at most a number of times. -/
def propagateUpTo (constraints : List Constraint) : Nat → TypeVars → TypeVars
  | 0, vs => vs
  | n + 1, vs =>
    let (next, changed) := (vs.settle constraints).backward constraints
    if changed then propagateUpTo constraints n next else next

/-- The most rounds of going forward and back. -/
def maxRounds : Nat := 64

def propagate (constraints : List Constraint) (vs : TypeVars) : TypeVars :=
  propagateUpTo constraints maxRounds vs

/-- Gives a type to all free classes that have none, and propagates it. -/
def applyDefault (constraints : List Constraint) (default : SqlType) (vs : TypeVars) : TypeVars :=
  match vs.untypedFree with
  | [] => vs
  | pending => propagate constraints (vs.setAll default pending).1

end TypeVars

/-- Type variables and the constraints on them. -/
structure Solver where
  vars : TypeVars
  constraints : Array Constraint
  deriving Repr, DecidableEq

namespace Solver

def empty : Solver := ⟨.empty, #[]⟩

/-- Adds a variable. -/
def fresh (s : Solver) (free : Bool) : TypeVar × Solver :=
  let (v, vars) := s.vars.fresh free
  (v, { s with vars })

/-- Adds a constraint. -/
def add (s : Solver) (c : Constraint) : Solver := { s with constraints := s.constraints.push c }

/-- Finds a type for every variable. -/
def solve (s : Solver) (default : SqlType) : Solver :=
  let constraints := s.constraints.toList
  let fixed := (TypeVars.pass TypeVars.fixStep constraints s.vars).1
  let defaulted := (fixed.propagate constraints).applyDefault constraints default
  { s with vars := (defaulted.setAll .unknown defaulted.untyped).1 }

/-- The type found for a variable. -/
def resolved (s : Solver) (v : TypeVar) : SqlType := (s.vars.type? v).getD .unknown

end Solver

end SqlSignature
