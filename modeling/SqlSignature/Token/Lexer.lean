import SqlSignature.ParseError
import SqlSignature.Text.Blank
import SqlSignature.Text.Letter
import SqlSignature.Text.Numeral
import SqlSignature.Token
/-!
# SqlSignature.Token.Lexer

From a text to its tokens. `Lexed.front` decides what stands at the front of a text: a blank or a
comment, which is passed over, a token, or a fault. Every answer says which characters it covers,
so that a text is the concatenation of what was covered and what is left.
-/

namespace SqlSignature

/-- What stands at the front of a text. -/
inductive Lexed where
  /-- A blank or a comment. -/
  | gap (covered rest : List Char)
  | token (kind : TokenKind) (text covered rest : List Char)
  /-- No token; `covered` is what the fault quotes. -/
  | fault (fault : ParseFault) (covered : List Char)
  deriving Repr

namespace Lexer

/-! ### Gaps -/

/-- A block comment up to and with its end, and what follows. -/
def blockComment : List Char → Option (List Char × List Char)
  | '*' :: '/' :: rest => some (['*', '/'], rest)
  | c :: rest => (blockComment rest).map fun (body, rest) => (c :: body, rest)
  | [] => none

/-- Whether a comment that ends with its line starts here. -/
def startsLineComment : List Char → Bool
  | '-' :: '-' :: _ => true
  | '#' :: _ => true
  | _ => false

/-! ### Words and numbers -/

/-- Whether a word may start with the character. -/
def startsWord (c : Char) : Bool := Text.isLetter c || c == '_' || c == '$'

/-- Whether a word may go on with the character. -/
def continuesWord (c : Char) : Bool :=
  Text.isLetter c || Text.isNumeral c || c == '_' || c == '$'

/-- The fraction of a number: a point and digits. A point before another point is no fraction. -/
def fraction : List Char → List Char × List Char
  | '.' :: '.' :: rest => ([], '.' :: '.' :: rest)
  | '.' :: rest => ('.' :: rest.takeWhile Char.isDigit, rest.dropWhile Char.isDigit)
  | cs => ([], cs)

/-- Whether digits, possibly with a sign before them, start here. -/
def startsExponentDigits : List Char → Bool
  | c :: d :: _ => c.isDigit || ((c == '-' || c == '+') && d.isDigit)
  | [c] => c.isDigit
  | [] => false

/-- The exponent of a number: the letter `e`, an optional sign and digits. -/
def exponent : List Char → List Char × List Char
  | e :: c :: rest =>
    if (e == 'e' || e == 'E') && startsExponentDigits (c :: rest) then
      (e :: c :: rest.takeWhile Char.isDigit, rest.dropWhile Char.isDigit)
    else ([], e :: c :: rest)
  | cs => ([], cs)

/-- A number: digits, then a fraction, then an exponent, each of which may be absent. -/
def number (cs : List Char) : List Char × List Char :=
  let (fractionPart, afterFraction) := fraction (cs.dropWhile Char.isDigit)
  let (exponentPart, rest) := exponent afterFraction
  (cs.takeWhile Char.isDigit ++ fractionPart ++ exponentPart, rest)

/-- Whether a number starts here: with a digit, or with a point before a digit. -/
def startsNumber : List Char → Bool
  | '.' :: d :: _ => d.isDigit
  | c :: _ => c.isDigit
  | [] => false

/-! ### Quoted tokens -/

/-- The quote around a quoted name. -/
def backQuote : Char := '\x60'

/-- The character that a backslash and a character stand for in a string. -/
def unescape : Char → Char
  | 'n' => '\n'
  | 't' => '\t'
  | 'r' => '\r'
  | '0' => '\x00'
  | c => c

/-- The rest of a string after its opening quote: what it says, what it covers, and what follows.
A doubled quote stands for one, and a backslash escapes the character after it. -/
def stringBody (quote : Char) : List Char → Option (List Char × List Char × List Char)
  | [] => none
  | [c] => if c == quote then some ([], [c], []) else none
  | c :: d :: rest =>
    if c == quote then
      if d == quote then
        (stringBody quote rest).map fun (said, covered, left) =>
          (quote :: said, c :: d :: covered, left)
      else some ([], [c], d :: rest)
    else if c == '\\' then
      (stringBody quote rest).map fun (said, covered, left) =>
        (unescape d :: said, c :: d :: covered, left)
    else
      (stringBody quote (d :: rest)).map fun (said, covered, left) =>
        (c :: said, c :: covered, left)

/-! ### Symbols -/

/-- The symbols; a symbol stands after every longer one that starts with it. -/
def symbols : List String :=
  ["<=>", "<=", ">=", "<>", "!=", "||", "&&", "<<", ">>",
    "(", ")", ",", ".", ";", "*", "+", "-", "/", "%", "=", "<", ">", "|", "&", "^", "~", "!", "@"]

/-- The first symbol that stands at the front. -/
def symbolAt (cs : List Char) : Option (List Char) :=
  (symbols.map String.toList).find? (·.isPrefixOf cs)

end Lexer

open Lexer in
/-- What stands at the front of the text `c :: rest`. -/
def Lexed.front (c : Char) (rest : List Char) : Lexed :=
  if Text.isBlank c then .gap [c] rest
  else if startsLineComment (c :: rest) then
    .gap ((c :: rest).takeWhile (· != '\n')) ((c :: rest).dropWhile (· != '\n'))
  else if ['/', '*'].isPrefixOf (c :: rest) then
    match blockComment (rest.drop 1) with
    | some (body, left) => .gap ('/' :: '*' :: body) left
    | none => .fault .unterminatedComment (c :: rest)
  else if c == '\'' || c == '"' then
    match stringBody c rest with
    | some (said, covered, left) => .token .string said (c :: covered) left
    | none => .fault .invalidString (c :: rest)
  else if c == backQuote then
    match rest.dropWhile (· != backQuote) with
    | _ :: left =>
      let said := rest.takeWhile (· != backQuote)
      .token .quotedName said (c :: said ++ [backQuote]) left
    | [] => .fault .invalidQuotedName (c :: rest)
  else if startsNumber (c :: rest) then
    let (covered, left) := number (c :: rest)
    .token .number covered covered left
  else if c == '?' then .token .placeholder [c] [c] rest
  else if startsWord c then
    let covered := c :: rest.takeWhile continuesWord
    .token .word covered covered (rest.dropWhile continuesWord)
  else
    match symbolAt (c :: rest) with
    | some covered => .token .symbol covered covered ((c :: rest).drop covered.length)
    | none => .fault .unexpectedCharacter [c]

namespace Token

/-- The tokens of the characters `cs`, which start at an offset of `text`. Each step covers at
least one character, so as much fuel as there are characters is enough. -/
def scanFrom (text : String) : (fuel offset : Nat) → List Char → Except ParseError (List Token)
  | _, _, [] => .ok []
  | 0, _, _ => .ok []
  | fuel + 1, offset, c :: cs =>
    match Lexed.front c cs with
    | .gap covered rest => scanFrom text fuel (offset + Text.byteSize covered) rest
    | .token kind said covered rest => do
      let stop := offset + Text.byteSize covered
      let tokens ← scanFrom text fuel stop rest
      return { kind, text := String.ofList said, start := offset, stop } :: tokens
    | .fault fault covered =>
      .error (.within text fault offset (offset + Text.byteSize covered))

/-- The tokens of a text. -/
def scan (text : String) : Except ParseError (List Token) :=
  scanFrom text text.toList.length 0 text.toList

end Token

end SqlSignature
