import SqlSignature.ColumnType
import SqlSignature.Text.Blank
import SqlSignature.Text.Case
/-!
# SqlSignature.Analysis.Resolver

A resolver knows the types of expressions that no rule covers. It is asked with the text of the
expression and the text of the clause that names the tables of its query.
-/

namespace SqlSignature

/-- Why a resolver does not know a type. -/
structure ResolverError where
  expression : String
  reason : String
  deriving Repr, DecidableEq

def ResolverError.message (e : ResolverError) : String :=
  "could not resolve the type of '" ++ e.expression ++ "': " ++ e.reason

/-- The type of an expression, given the tables of its query. -/
abbrev Resolver :=
  (expression : String) → (tables : Option String) → Except ResolverError ColumnType

/-- A question that was put to a resolver, and its answer. -/
structure ResolverCall where
  expression : String
  tables : Option String
  answer : Except ResolverError ColumnType

/-- Types of expressions by their texts. Blanks around a text and the case of letters do not
count. -/
structure ExpressionTypes where
  entries : List (String × ColumnType)
  deriving Repr, DecidableEq

namespace ExpressionTypes

def empty : ExpressionTypes := ⟨[]⟩

/-- The text under which an expression is entered. -/
def key (expression : String) : String := Text.lower (Text.trim expression)

/-- Enters a type. It takes the place of one that was entered before. -/
def insert (types : ExpressionTypes) (expression : String) (type : ColumnType) : ExpressionTypes :=
  ⟨(key expression, type) :: types.entries⟩

/-- The resolver that knows the entered types. -/
def resolver (types : ExpressionTypes) : Resolver := fun expression _ =>
  match types.entries.lookup (key expression) with
  | some type => .ok type
  | none => .error { expression, reason := "no type registered" }

end ExpressionTypes

end SqlSignature
