import SqlSignature.Text.Ranges
/-!
# SqlSignature.Text.Blank

The characters with the Unicode property `White_Space`, and the operations on texts that speak of
them: trimming both ends and splitting at blanks.
-/

namespace SqlSignature.Text

/-- The characters with the property `White_Space`. -/
def blanks : Ranges := [
  (0x9, 5), (0x20, 1), (0x85, 1), (0xa0, 1), (0x1680, 1), (0x2000, 11), (0x2028, 2), (0x202f, 1),
  (0x205f, 1), (0x3000, 1)]

/-- Whether a character is blank. -/
def isBlank (c : Char) : Bool := blanks.contains c

/-- A text without the blanks at its two ends. -/
def trim (s : String) : String :=
  String.ofList (((s.toList.dropWhile isBlank).reverse.dropWhile isBlank).reverse)

/-- The maximal runs of characters that are not blank. `word` holds the run being read, last
character first. -/
def splitBlanksFrom (word : List Char) : List Char → List (List Char)
  | [] => if word.isEmpty then [] else [word.reverse]
  | c :: rest =>
    if isBlank c then
      if word.isEmpty then splitBlanksFrom [] rest else word.reverse :: splitBlanksFrom [] rest
    else splitBlanksFrom (c :: word) rest

/-- The words of a text, which blanks keep apart. -/
def splitBlanks (s : String) : List String :=
  (splitBlanksFrom [] s.toList).map String.ofList

end SqlSignature.Text
