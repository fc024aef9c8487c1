import SqlSignature.Text.Slice
/-!
# SqlSignature.ParseError

Why a text is no statement, and where. An error names its fault and quotes the stretch of text that
the fault concerns.
-/

namespace SqlSignature

/-- What is wrong with a text. -/
inductive ParseFault where
  /-- A block comment without its end. -/
  | unterminatedComment
  /-- A string without its closing quote. -/
  | invalidString
  /-- A back-quoted name without its closing quote. -/
  | invalidQuotedName
  /-- A character that begins no token. -/
  | unexpectedCharacter
  | expectedWord (word : String)
  | expectedSymbol (symbol : String)
  | expectedIdentifier
  /-- `IS` followed by something other than a truth value or `NULL`. -/
  | expectedTruthValue
  | unexpectedEnd
  | invalidNumber
  | unexpectedToken
  | unexpectedKeyword
  /-- A column name with more than three parts. -/
  | invalidColumn
  | caseWithoutWhen
  | expectedAlias
  | expectedDerivedTable
  | derivedTableWithoutAlias
  | emptyStatement
  | unsupportedStatement
  | expectedRows
  /-- The text nests deeper than it has tokens to nest with. -/
  | nestingTooDeep
  /-- A fault that a caller words itself. -/
  | other (message : String)
  deriving Repr, DecidableEq

/-- The wording of a fault. -/
def ParseFault.message : ParseFault → String
  | unterminatedComment => "Unterminated comment"
  | invalidString => "Invalid string"
  | invalidQuotedName => "Invalid quoted identifier"
  | unexpectedCharacter => "Unexpected character"
  | expectedWord word => "Expected " ++ word
  | expectedSymbol symbol => "Expected '" ++ symbol ++ "'"
  | expectedIdentifier => "Expected identifier"
  | expectedTruthValue => "Expected NULL, TRUE or FALSE after IS"
  | unexpectedEnd => "Unexpected end of statement"
  | invalidNumber => "Invalid number"
  | unexpectedToken => "Unexpected token"
  | unexpectedKeyword => "Unexpected keyword"
  | invalidColumn => "Invalid column reference"
  | caseWithoutWhen => "CASE without WHEN"
  | expectedAlias => "Expected alias"
  | expectedDerivedTable => "Expected derived table"
  | derivedTableWithoutAlias => "Every derived table must have an alias"
  | emptyStatement => "Empty statement"
  | unsupportedStatement => "Unsupported statement"
  | expectedRows => "Expected VALUES or SELECT"
  | nestingTooDeep => "Nesting too deep"
  | other message => message

/-- A fault at a stretch of a text, which is quoted. -/
structure ParseError where
  fault : ParseFault
  start : Nat
  stop : Nat
  excerpt : String
  deriving Repr, DecidableEq

namespace ParseError

/-- A fault between two offsets of a text. The end is moved to the end of the text if it lies past
it, and never stands before the start. -/
def within (text : String) (fault : ParseFault) (start stop : Nat) : ParseError :=
  let stop := max (min stop (Text.size text)) start
  { fault, start, stop, excerpt := Text.slice text start stop }

/-- The wording of an error: its fault, its offsets and its quotation. -/
def message (e : ParseError) : String :=
  s!"ParseError: {e.fault.message}\n  at [{e.start}:{e.stop}] -> '{e.excerpt}'"

end ParseError

end SqlSignature
