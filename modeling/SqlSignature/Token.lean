import SqlSignature.Text.Case
/-!
# SqlSignature.Token

The tokens of a statement. A token knows the bytes of the text that it was read from.
-/

namespace SqlSignature

/-- The kinds of tokens. -/
inductive TokenKind where
  /-- A keyword or a plain name. -/
  | word
  /-- A name in back quotes. -/
  | quotedName
  /-- A string in single or double quotes. -/
  | string
  | number
  /-- A question mark that stands for a bound value. -/
  | placeholder
  | symbol
  deriving Repr, DecidableEq

/-- A token and the offsets where it starts and stops. -/
structure Token where
  kind : TokenKind
  /-- What the token says: strings and quoted names stand without quotes and escapes. -/
  text : String
  start : Nat
  stop : Nat
  deriving Repr, DecidableEq

namespace Token

/-- Whether the token is a word, up to case. -/
def isWord (t : Token) (word : String) : Bool := t.kind == .word && Text.sameName t.text word

/-- Whether the token is a symbol. -/
def isSymbol (t : Token) (symbol : String) : Bool := t.kind == .symbol && t.text == symbol

/-- Whether the token can name a column, a table or an alias. -/
def isIdentifier (t : Token) : Bool := t.kind == .word || t.kind == .quotedName

/-- The token as it is shown to a reader. -/
def display (t : Token) : String :=
  match t.kind with
  | .string => "'" ++ t.text ++ "'"
  | .quotedName => "`" ++ t.text ++ "`"
  | _ => t.text

end Token

end SqlSignature
