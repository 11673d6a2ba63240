import TagWire.Tag.Basic
import TagWire.Text.Blank

/-!
# Lexemes of a tag

The body of a tag is what stands before its first colon. It is cut into single characters and bracketed
labels; a bracket that is never closed takes the rest of the body and is a lexeme that belongs nowhere.
Blanks may stand before every lexeme, as they may between any two parts of a rule. The place of a lexeme is
behind them, where a rule would be tried.
-/

namespace TagWire

/-- The two elements that carry a unit. -/
inductive Quantity where
  | value
  | complex
deriving DecidableEq, Repr

/-- The element with a given mark. -/
def Quantity.hint : Quantity → UnitMark → Hint
  | value, u => .value u
  | complex, u => .complex u

/-- What a lexeme is. -/
inductive Token where
  /-- An empty element, or the unknown element of a list. -/
  | underscore
  /-- An element of one character. -/
  | simple (element : Hint)
  /-- An element that a label may follow. -/
  | quantity (q : Quantity)
  /-- A label with its brackets taken off. -/
  | label (chars : List Char)
  | star
  | digit (value : Nat)
  | error
  | opening
  | closing
  /-- Anything else. -/
  | stray
deriving DecidableEq, Repr

/-- The token of a character outside of labels. -/
def Token.ofChar (c : Char) : Token :=
  if c = '_' then underscore
  else if c = 'b' then simple .bool
  else if c = 'i' then simple .int
  else if c = 'w' then simple .word
  else if c = 's' then simple .str
  else if c = 't' then simple .time
  else if c = '?' then simple .wildcard
  else if c = 'v' then quantity .value
  else if c = 'c' then quantity .complex
  else if c = '*' then star
  else if c = 'E' then error
  else if c = '(' then opening
  else if c = ')' then closing
  else if c.isDigit then digit (c.toNat - '0'.toNat)
  else stray

/-- A token and its place: the rest of the body from it on, and the rest behind it. -/
structure Lexeme where
  token : Token
  here : List Char
  after : List Char
deriving DecidableEq, Repr

namespace Lexeme

/-- A label that is being read: the body from its bracket on, and its characters so far, latest first. -/
structure OpenLabel where
  here : List Char
  chars : List Char

/-- Cuts the rest of a body into lexemes, inside of a label or not. -/
def scan : Option OpenLabel → List Char → List Lexeme
  | none, [] => []
  | some label, [] => [⟨.stray, label.here, []⟩]
  | none, c :: cs =>
    if Text.isSeparator c then scan none cs
    else if c = '[' then scan (some ⟨c :: cs, []⟩) cs
    else ⟨.ofChar c, c :: cs, cs⟩ :: scan none cs
  | some label, c :: cs =>
    if c = ']' then ⟨.label label.chars.reverse, label.here, cs⟩ :: scan none cs
    else scan (some ⟨label.here, c :: label.chars⟩) cs

def ofBody (body : List Char) : List Lexeme := scan none body

/-- What a lexeme and those up to another one's end are in the body. -/
def textUpTo (first : Lexeme) (after : List Char) : List Char :=
  first.here.take (first.here.length - after.length)

end Lexeme

/-- The part of a tag before its first colon; the rest is a comment. -/
def tagBody (tag : List Char) : List Char := tag.takeWhile (· ≠ ':')

end TagWire
