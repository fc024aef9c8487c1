import SqlSignature.Analysis.Resolver
import SqlSignature.Analysis.Scope
import SqlSignature.Config
import SqlSignature.Inference.Solver
/-!
# SqlSignature.Analysis.State

What an analysis is given and what it gathers. Facts about expressions are kept beside the tree, by
the numbers of its nodes.
-/

namespace SqlSignature

/-- What an analysis is given. -/
structure AnalysisInput where
  /-- The text of the statement. -/
  text : String
  catalog : Catalog
  config : Config
  resolver : Option Resolver
  /-- The names of the bound values. -/
  names : List (Option String)

namespace AnalysisInput

/-- The name of a bound value, if it has one. -/
def name? (input : AnalysisInput) (ordinal : Nat) : Option String := (input.names[ordinal]?).bind id

/-- Whether some bound value has a name. -/
def hasNames (input : AnalysisInput) : Bool := input.names.any Option.isSome

end AnalysisInput

/-- What is known of a bound value. -/
structure ParameterFacts where
  var : TypeVar
  notNull : Bool
  list : Bool
  deriving Repr, DecidableEq

/-- What an analysis gathers. -/
structure AnalysisState where
  solver : Solver
  scopes : Scopes
  /-- What column names stand for. -/
  references : List (Nat × Reference)
  /-- The variables of expressions. -/
  exprVars : List (Nat × TypeVar)
  /-- The sets of types that the resolver gave. -/
  typeSets : List (Nat × ColumnType)
  parameters : Array ParameterFacts
  calls : Array ResolverCall

namespace AnalysisState

/-- Adds the variable of a bound value. Bound values with one name share a variable. -/
def addParameter (named : List (String × TypeVar)) (solver : Solver) (name : Option String) :
    TypeVar × List (String × TypeVar) × Solver :=
  match name with
  | none =>
    let (var, solver) := solver.fresh true
    (var, named, solver)
  | some name =>
    match named.lookup name with
    | some var => (var, named, solver)
    | none =>
      let (var, solver) := solver.fresh true
      (var, (name, var) :: named, solver)

/-- The variables of bound values with names. -/
def addParameters (named : List (String × TypeVar)) (solver : Solver) :
    List (Option String) → List TypeVar × Solver
  | [] => ([], solver)
  | name :: rest =>
    let (var, named, solver) := addParameter named solver name
    let (vars, solver) := addParameters named solver rest
    (var :: vars, solver)

/-- The state before an analysis of a statement with a number of bound values. -/
def initial (input : AnalysisInput) (placeholders : Nat) : AnalysisState :=
  let (vars, solver) := addParameters [] .empty ((List.range placeholders).map input.name?)
  { solver, scopes := #[], references := [], exprVars := [], typeSets := []
    parameters := (vars.map fun var => { var, notNull := true, list := false }).toArray
    calls := #[] }

/-- What a node that is a column name stands for. -/
def reference? (s : AnalysisState) (e : Expr) : Option Reference := s.references.lookup e.id

/-- The column of the innermost scope that a node names. -/
def localColumn? (s : AnalysisState) (e : Expr) : Option BoundColumn :=
  match s.reference? e with
  | some (.column bound) => if bound.scope = s.scopes.innermost then some bound else none
  | _ => none

/-- Whether a bound value cannot be null. -/
def parameterNotNull (s : AnalysisState) (ordinal : Nat) : Bool :=
  (s.parameters[ordinal]?).any ParameterFacts.notNull

end AnalysisState

/-- A step of an analysis. -/
abbrev Analysis := EStateM AnalysisError AnalysisState

namespace Analysis

/-- A result, or the error that stands in its place. -/
def ofExcept {α : Type} : Except AnalysisError α → Analysis α
  | .ok a => pure a
  | .error e => throw e

/-! ### Types -/

/-- Adds a variable for something whose type the statement determines. -/
def freshVar : Analysis TypeVar :=
  modifyGet fun s =>
    let (var, solver) := s.solver.fresh false
    (var, { s with solver })

def constrain (c : Constraint) : Analysis Unit :=
  modify fun s => { s with solver := s.solver.add c }

def fix (var : TypeVar) (type : SqlType) : Analysis Unit := constrain (.fix var type)

def expect (var : TypeVar) (type : SqlType) : Analysis Unit := constrain (.expect var type)

def equate (a b : TypeVar) : Analysis Unit := constrain (.equal a b)

/-- The variable of a node, if it has one. -/
def knownVar? (s : AnalysisState) (e : Expr) : Option TypeVar :=
  (e.ordinal?.bind fun ordinal => s.parameters[ordinal]?.map ParameterFacts.var).or
    (((s.reference? e).map Reference.var).or (s.exprVars.lookup e.id))

/-- The variable of a node. It is added when it is first asked for. -/
def varOf (e : Expr) : Analysis TypeVar := do
  match knownVar? (← get) e with
  | some var => return var
  | none =>
    let var ← freshVar
    modify fun s => { s with exprVars := (e.id, var) :: s.exprVars }
    return var

/-! ### Bound values -/

/-- Notes that a bound value can be null. -/
def markNullable (ordinal : Nat) : Analysis Unit :=
  modify fun s => { s with parameters := s.parameters.modify ordinal ({ · with notNull := false }) }

/-- Notes that an expression can be null, if it is a bound value. -/
def markNullableExpr (e : Expr) : Analysis Unit :=
  match e.ordinal? with
  | some ordinal => markNullable ordinal
  | none => pure ()

/-- Notes that an expression is a list, if it is a bound value. -/
def markList (e : Expr) : Analysis Unit :=
  match e.ordinal? with
  | some ordinal => do
    markNullable ordinal
    modify fun s => { s with parameters := s.parameters.modify ordinal ({ · with list := true }) }
  | none => pure ()

/-! ### Scopes -/

/-- Changes the innermost scope. -/
def modifyScope (f : Scope → Scope) : Analysis Unit :=
  modify fun s => { s with scopes := s.scopes.modify s.scopes.innermost f }

/-- The innermost scope. -/
def innermostScope : Analysis Scope := do
  return (← get).scopes.back?.getD {}

/-- Runs a step inside a new scope, and gives back what became of the scope. -/
def inScope {α : Type} (scope : Scope) (step : Analysis α) : Analysis (α × Scope) := fun s =>
  match step { s with scopes := s.scopes.push scope } with
  | .ok a s => .ok (a, s.scopes.back?.getD {}) { s with scopes := s.scopes.pop }
  | .error e s => .error e { s with scopes := s.scopes.pop }

/-- Runs a step that sees none of the scopes around it. -/
def isolated {α : Type} (step : Analysis α) : Analysis α := fun s =>
  match step { s with scopes := #[] } with
  | .ok a after => .ok a { after with scopes := s.scopes }
  | .error e after => .error e { after with scopes := s.scopes }

/-- The text of the nearest clause that names tables. -/
def tablesText (s : AnalysisState) : Option String :=
  s.scopes.toList.reverse.findSome? Scope.tablesText

/-- Adds a table to the innermost scope, and gives back its index. -/
def pushSource (source : Source) : Analysis Nat := do
  let index := (← innermostScope).sources.length
  modifyScope fun scope => { scope with sources := scope.sources ++ [source] }
  return index

end Analysis

end SqlSignature
