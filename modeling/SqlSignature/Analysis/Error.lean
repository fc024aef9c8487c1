/-!
# SqlSignature.Analysis.Error

Why a statement does not fit the catalog.
-/

namespace SqlSignature

/-- A statement that is wrong whatever the catalog is. -/
inductive StatementFault where
  | wildcardOutsideQuery
  | noTablesUsed
  | noSelectList
  deriving Repr, DecidableEq

def StatementFault.message : StatementFault → String
  | wildcardOutsideQuery => "wildcard outside of a query"
  | noTablesUsed => "no tables used"
  | noSelectList => "query without a select list"

/-- Why a statement cannot be analysed. -/
inductive AnalysisError where
  | unknownTable (name : String)
  /-- A column that is not there; the candidates are the columns that are. -/
  | unknownColumn (name : String) (candidates : List String)
  /-- A column that several tables have. -/
  | ambiguousColumn (name : String) (found : List String)
  | invalidStatement (fault : StatementFault)
  deriving Repr, DecidableEq

/-- The candidates after an error, in parentheses. -/
def candidatesHint (candidates : List String) : String :=
  if candidates.isEmpty then "" else " (candidates: " ++ ", ".intercalate candidates ++ ")"

/-- The wording of an error. -/
def AnalysisError.message : AnalysisError → String
  | unknownTable name => "unknown table '" ++ name ++ "'"
  | unknownColumn name candidates => "unknown column '" ++ name ++ "'" ++ candidatesHint candidates
  | ambiguousColumn name found =>
    "column '" ++ name ++ "' is ambiguous, found in " ++ ", ".intercalate found
  | invalidStatement fault => "invalid statement: " ++ fault.message

end SqlSignature
