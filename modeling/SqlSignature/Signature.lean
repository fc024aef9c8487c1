import SqlSignature.Fragment
import SqlSignature.Nested
/-!
# SqlSignature.Signature

The signature of a statement: what it takes and what it gives.
-/

namespace SqlSignature

/-- The kinds of statements. -/
inductive StatementType where
  | select | insert | update | delete
  deriving Repr, DecidableEq

def StatementType.name : StatementType → String
  | select => "Select"
  | insert => "Insert"
  | update => "Update"
  | delete => "Delete"

/-- What is reported about a statement. -/
structure Signature where
  /-- The text of the statement, in which bound values have no names. -/
  text : String
  type : StatementType
  multipleRows : Bool := false
  columns : List ResultColumn
  parameters : List Parameter
  /-- The values that are stored. -/
  data : Option (List Parameter) := none
  /-- The names that the result can be sorted by. -/
  orderByColumns : Option (List String) := none
  /-- The names of bound values as they are written. -/
  parameterNames : Option (List String) := none
  nested : Option NestedResult := none
  dynamic : Option DynamicQuery := none
  deriving Repr, DecidableEq

end SqlSignature
