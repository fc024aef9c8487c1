import SqlSignature.SqlType
/-!
# SqlSignature.Config

What can be chosen about an analysis.
-/

namespace SqlSignature

structure Config where
  /-- The type of a bound value that nothing else gives a type to. -/
  defaultParameterType : SqlType := .varchar
  /-- Whether result columns with a name that is taken are renamed. -/
  renameDuplicates : Bool := true
  /-- Whether a value for a column may be null only if the column may. -/
  dataNotNullFromSchema : Bool := false
  /-- Whether it is looked for queries that have one row at most. -/
  inferMultipleRows : Bool := true
  deriving Repr, DecidableEq

end SqlSignature
