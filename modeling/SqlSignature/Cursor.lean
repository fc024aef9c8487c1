import SqlSignature.ParseError
import SqlSignature.Span
import SqlSignature.Token.Lexer
/-!
# SqlSignature.Cursor

A place among the tokens of a text, together with how many nodes and how many bound values have
been met so far.
-/

namespace SqlSignature

structure Cursor where
  text : String
  tokens : Array Token
  /-- The index of the next token. -/
  position : Nat
  /-- The number of the next node. -/
  nodes : Nat
  /-- The ordinal of the next bound value. -/
  placeholders : Nat
  deriving Repr, DecidableEq

namespace Cursor

/-- The cursor at the start of a text. -/
def ofText (text : String) : Except ParseError Cursor := do
  let tokens ← Token.scan text
  return { text, tokens := tokens.toArray, position := 0, nodes := 0, placeholders := 0 }

/-- Whether no token is left. -/
def atEnd (c : Cursor) : Bool := decide (c.tokens.size ≤ c.position)

/-- The token some places ahead. -/
def peek (c : Cursor) (ahead : Nat) : Option Token := c.tokens[c.position + ahead]?

/-- The next token. -/
def current (c : Cursor) : Option Token := c.tokens[c.position]?

/-- The cursor one token on; it stays at the end. -/
def next (c : Cursor) : Cursor :=
  if c.position < c.tokens.size then { c with position := c.position + 1 } else c

def isWord (c : Cursor) (word : String) : Bool := c.current.any (·.isWord word)

def isSymbol (c : Cursor) (symbol : String) : Bool := c.current.any (·.isSymbol symbol)

def isKind (c : Cursor) (kind : TokenKind) : Bool := c.current.any (·.kind == kind)

/-! ### Offsets -/

/-- Where a token starts; past the last token, where the text ends. -/
def tokenStart (c : Cursor) (index : Nat) : Nat :=
  (c.tokens[index]?.map Token.start).getD (Text.size c.text)

/-- Where a token stops; past the last token, where the text ends. -/
def tokenStop (c : Cursor) (index : Nat) : Nat :=
  (c.tokens[index]?.map Token.stop).getD (Text.size c.text)

/-- Where the last token that was passed stops. -/
def previousStop (c : Cursor) : Nat :=
  if c.position = 0 then 0 else c.tokenStop (c.position - 1)

/-- The span from an offset to the last token that was passed. -/
def spanFromOffset (c : Cursor) (start : Nat) : Span := ⟨start, max c.previousStop start⟩

/-- The span from a token to the last token that was passed. -/
def spanFrom (c : Cursor) (pivot : Nat) : Span := c.spanFromOffset (c.tokenStart pivot)

/-- The text between two offsets, as far as it goes. -/
def textBetween (c : Cursor) (start stop : Nat) : String :=
  Text.slice c.text start (min stop (Text.size c.text))

/-- A fault from a token up to the next token, or where the first one starts if that is behind. -/
def errorFrom (c : Cursor) (fault : ParseFault) (pivot : Nat) : ParseError :=
  let start := c.tokenStart pivot
  let stop := max (c.tokenStop c.position) start
  { fault, start, stop, excerpt := c.textBetween start stop }

@[simp] theorem next_text (c : Cursor) : c.next.text = c.text := by
  unfold next; split <;> rfl

@[simp] theorem next_tokens (c : Cursor) : c.next.tokens = c.tokens := by
  unfold next; split <;> rfl

@[simp] theorem next_nodes (c : Cursor) : c.next.nodes = c.nodes := by
  unfold next; split <;> rfl

@[simp] theorem next_placeholders (c : Cursor) : c.next.placeholders = c.placeholders := by
  unfold next; split <;> rfl

end Cursor

end SqlSignature
