import SqlSignature.Expr
/-!
# SqlSignature.Statement

The statements: queries, and the statements that insert, update and delete rows.
-/

namespace SqlSignature

/-- A table by name. -/
structure TableName where
  schema : Option String
  name : String
  label : Option String
  deriving Repr, DecidableEq

/-- A column and the value it is set to. -/
structure Assignment where
  table : Option String
  column : String
  value : Expr
  span : Span

/-- Where the rows of an insertion come from. -/
inductive InsertSource where
  | values (rows : List (List Expr))
  | query (query : Query)

structure Insertion where
  table : TableName
  columns : List String
  source : InsertSource
  /-- What is set when a row is there already. -/
  onDuplicate : List Assignment

structure Update where
  tables : List TableRef
  assignments : List Assignment
  filter : Option Expr

structure Deletion where
  table : TableName
  filter : Option Expr

inductive StatementKind where
  | select (query : Query)
  | insert (insertion : Insertion)
  | update (update : Update)
  | delete (deletion : Deletion)

/-- A statement with its text, the number of its bound values and the number of its nodes. -/
structure Statement where
  text : String
  kind : StatementKind
  placeholders : Nat
  nodes : Nat

end SqlSignature
