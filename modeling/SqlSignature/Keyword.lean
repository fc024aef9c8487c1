import SqlSignature.Cursor
import SqlSignature.Text.Upper
/-!
# SqlSignature.Keyword

The reserved words, and phrases of several keywords such as `LEFT OUTER JOIN`.
-/

namespace SqlSignature

/-- The words that end an expression or a clause. None of them can be an alias or the name of a
column unless it is quoted. -/
def reservedWords : List String :=
  ["SELECT", "FROM", "WHERE", "GROUP", "HAVING", "ORDER", "LIMIT", "OFFSET", "UNION", "JOIN",
    "INNER", "LEFT", "RIGHT", "FULL", "CROSS", "OUTER", "NATURAL", "ON", "USING", "SET", "VALUES",
    "AND", "OR", "XOR", "NOT", "IS", "IN", "BETWEEN", "LIKE", "REGEXP", "RLIKE", "CASE", "WHEN",
    "THEN", "ELSE", "END", "AS", "INTO", "ASC", "DESC", "BY", "DIV", "MOD", "FOR", "WINDOW",
    "DUPLICATE"]

/-- Whether a word is reserved, up to case. -/
def isReserved (word : String) : Bool := reservedWords.any (Text.sameName · word)

/-- A sequence of keywords. -/
structure KeywordPhrase where
  words : List String
  /-- The indices of the words that may be missing. -/
  optional : List Nat := []
  /-- A symbol that has to follow the words, and is not part of the phrase. -/
  delimiter : Option String := none
  deriving Repr, DecidableEq

namespace KeywordPhrase

/-- The phrase of the words of a text. -/
def ofText (text : String) (optional : List Nat) (delimiter : Option String) : KeywordPhrase :=
  { words := (Text.splitBlanks text).map Text.upper, optional, delimiter }

/-- How many tokens the words from an index on cover, if they are there. `offset` counts the tokens
that the words before them cover. -/
def matchWords (phrase : KeywordPhrase) (c : Cursor) :
    List String → (index offset : Nat) → Option Nat
  | [], _, offset => some offset
  | word :: rest, index, offset =>
    if (c.peek offset).any (·.isWord word) then phrase.matchWords c rest (index + 1) (offset + 1)
    else if phrase.optional.contains index then phrase.matchWords c rest (index + 1) offset
    else none

/-- How many tokens the phrase covers at a cursor, if it stands there. -/
def matched (phrase : KeywordPhrase) (c : Cursor) : Option Nat := do
  let length ← phrase.matchWords c phrase.words 0 0
  match phrase.delimiter with
  | some symbol => if (c.peek length).any (·.isSymbol symbol) then return length else none
  | none => return length

/-- Whether the phrase stands at a cursor. -/
def standsAt (phrase : KeywordPhrase) (c : Cursor) : Bool := (phrase.matched c).isSome

end KeywordPhrase

/-- The cursor some tokens on. -/
def Cursor.skip (c : Cursor) : Nat → Cursor
  | 0 => c
  | n + 1 => c.next.skip n

/-! ### The phrases of the grammar -/

namespace Phrase

def union : KeywordPhrase := { words := ["UNION"] }
def groupBy : KeywordPhrase := { words := ["GROUP", "BY"] }
def orderBy : KeywordPhrase := { words := ["ORDER", "BY"] }
def innerJoin : KeywordPhrase := { words := ["INNER", "JOIN"] }
def crossJoin : KeywordPhrase := { words := ["CROSS", "JOIN"] }
def leftJoin : KeywordPhrase := { words := ["LEFT", "OUTER", "JOIN"], optional := [1] }
def rightJoin : KeywordPhrase := { words := ["RIGHT", "OUTER", "JOIN"], optional := [1] }
def fullJoin : KeywordPhrase := { words := ["FULL", "OUTER", "JOIN"], optional := [1] }
def sharedColumns : KeywordPhrase := { words := ["USING"], delimiter := some "(" }
def notIn : KeywordPhrase := { words := ["NOT", "IN"], delimiter := some "(" }
def notBetween : KeywordPhrase := { words := ["NOT", "BETWEEN"] }
def notLike : KeywordPhrase := { words := ["NOT", "LIKE"] }
def notRegexp : KeywordPhrase := { words := ["NOT", "REGEXP"] }
def onDuplicate : KeywordPhrase := { words := ["ON", "DUPLICATE", "KEY", "UPDATE"] }

end Phrase

end SqlSignature
