import SqlSignature.Text.Blank
import SqlSignature.Text.Repertoire
import SqlSignature.Text.WordCharacter
import SqlSignature.Token.Lexer
/-!
# SqlSignature.BoundText

A statement as its author writes it may name its bound values, `:name`, and may carry annotations
in comments. Binding replaces every name by a question mark and remembers the names in order.
Quoted text and comments are left as they are.
-/

namespace SqlSignature

/-- A statement text whose bound values are all question marks. -/
structure BoundText where
  text : String
  /-- One entry for each question mark: the name it was written with, if any. -/
  parameters : List (Option String)
  /-- Whether the text asks for a nested result. -/
  nested : Bool
  /-- Whether the text asks for a description of its optional parts. -/
  dynamic : Bool
  deriving Repr, DecidableEq

namespace BoundText

/-- Whether some bound value has a name. -/
def hasNames (b : BoundText) : Bool := b.parameters.any Option.isSome

/-- The names in order, repetitions included. -/
def names (b : BoundText) : List String := b.parameters.filterMap id

/-! ### Stretches -/

/-- A stretch of the text. -/
inductive Stretch where
  /-- Text that is kept: quoted text, a comment, or a single character. -/
  | kept (text : List Char)
  | named (name : List Char)
  | positional
  deriving Repr, DecidableEq

/-- The rest of a quoted text after its opening quote, up to and with its closing quote. A
backslash protects the character after it, but not a newline. -/
def quotedBody (quote : Char) : List Char → Option (List Char × List Char)
  | [] => none
  | [c] => if c == quote then some ([c], []) else none
  | c :: d :: rest =>
    if c == quote then some ([c], d :: rest)
    else if c == '\\' then
      if d == '\n' then none
      else (quotedBody quote rest).map fun (body, left) => (c :: d :: body, left)
    else (quotedBody quote (d :: rest)).map fun (body, left) => (c :: body, left)

/-- Whether a character can stand in the name of a bound value: a letter from `a` to `z` in either
case, an established decimal digit of any script, or an underscore. -/
def isNameChar (c : Char) : Bool :=
  c.isAlpha || Text.isEstablished c && Text.isDecimalDigit c || c == '_'

/-- The name of a bound value after its colon. -/
def name? (cs : List Char) : Option (List Char × List Char) :=
  match cs.takeWhile isNameChar with
  | [] => none
  | name => some (name, cs.dropWhile isNameChar)

/-- A quoted text or a comment that starts with the character `c`. -/
def protected? (c : Char) (rest : List Char) : Option (List Char × List Char) :=
  if c == '\'' || c == '"' then
    (quotedBody c rest).map fun (body, left) => (c :: body, left)
  else if c == Lexer.backQuote then
    match rest.dropWhile (· != Lexer.backQuote) with
    | q :: left => some (c :: rest.takeWhile (· != Lexer.backQuote) ++ [q], left)
    | [] => none
  else if ['-', '-'].isPrefixOf (c :: rest) then
    some ((c :: rest).takeWhile (· != '\n'), (c :: rest).dropWhile (· != '\n'))
  else if ['/', '*'].isPrefixOf (c :: rest) then
    (Lexer.blockComment (rest.drop 1)).map fun (body, left) => ('/' :: '*' :: body, left)
  else none

/-- The stretch at the front of the text `c :: rest`, and what follows it. -/
def Stretch.front (c : Char) (rest : List Char) : Stretch × List Char :=
  match protected? c rest with
  | some (text, left) => (.kept text, left)
  | none =>
    if c == '?' then (.positional, rest)
    else if c == ':' then
      match name? rest with
      | some (name, left) => (.named name, left)
      | none => (.kept [c], rest)
    else (.kept [c], rest)

/-- The stretches of a text. Each covers at least one character, so as much fuel as there are
characters is enough. -/
def stretches : Nat → List Char → List Stretch
  | _, [] => []
  | 0, _ => []
  | fuel + 1, c :: rest =>
    let (stretch, left) := Stretch.front c rest
    stretch :: stretches fuel left

/-- What a stretch becomes in the bound text. -/
def Stretch.bound : Stretch → List Char
  | kept text => text
  | named _ | positional => ['?']

/-- The bound value of a stretch, if it is one. -/
def Stretch.parameter? : Stretch → Option (Option String)
  | kept _ => none
  | named name => some (some (String.ofList name))
  | positional => some none

/-! ### Annotations -/

/-- Whether a comment with the annotation `@name` starts here. The name must end where a word
ends. -/
def startsAnnotation (name : String) (cs : List Char) : Bool :=
  let marked := '@' :: name.toList
  match cs with
  | '-' :: '-' :: rest =>
    let rest := rest.dropWhile Text.isBlank
    marked.isPrefixOf rest &&
      match rest.drop marked.length with
      | c :: _ => !Text.isWordCharacter c
      | [] => true
  | _ => false

/-- Whether a comment with the annotation `@name` starts anywhere in the text. -/
def hasAnnotation (name : String) : List Char → Bool
  | [] => false
  | c :: rest => startsAnnotation name (c :: rest) || hasAnnotation name rest

/-- Binds the names of a statement text. -/
def ofText (text : String) : BoundText :=
  let cs := text.toList
  let parts := stretches cs.length cs
  { text := String.ofList (parts.flatMap Stretch.bound)
    parameters := parts.filterMap Stretch.parameter?
    nested := hasAnnotation "nested" cs
    dynamic := hasAnnotation "dynamicQuery" cs }

end BoundText

end SqlSignature
