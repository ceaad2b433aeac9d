/-!
# Cursors in YAML text

A position in a YAML text, with its line and column, and the classes of characters that the notation
distinguishes.
-/

namespace MenuActions.Yaml

/-- What can be wrong with a YAML text. -/
inductive Fault
  | badCharacter
  | tabInIndentation
  | unexpectedEnd
  | unexpectedMarker
  | badEscape
  | badBlockHeader
  | badAnchor
  | badTag
  | badDirective
  | missingColon
  | misplacedEntry
  | misplacedKey
  | misplacedValue
  | noToken
  | unexpectedToken
  | unknownAnchor
  | severalDocuments
  | wrongShape
  deriving DecidableEq, Repr

/-- A position in a text. -/
structure Cursor where
  rest : List Char
  index : Nat
  line : Nat
  column : Nat
  deriving DecidableEq, Repr

/-- A space or a tab. -/
def isBlank (c : Char) : Bool :=
  c == ' ' || c == '\t'

/-- A character that ends a line. -/
def isBreak (c : Char) : Bool :=
  c == '\n' || c == '\r' || c.toNat == 0x85 || c.toNat == 0x2028 || c.toNat == 0x2029

/-- A character that may stand in a text at all. -/
def isAllowed (c : Char) : Bool :=
  let n := c.toNat
  n == 9 || n == 10 || n == 13 || (0x20 ≤ n && n ≤ 0x7E) || n == 0x85 ||
    (0xA0 ≤ n && n ≤ 0xD7FF) || (0xE000 ≤ n && n ≤ 0xFFFD && n != 0xFEFF) || 0x10000 ≤ n

/-- A character of an anchor's or a directive's name. -/
def isWordChar (c : Char) : Bool :=
  c.isAlphanum || c == '_' || c == '-'

namespace Cursor

/-- The beginning of a text. -/
def start (text : List Char) : Cursor :=
  ⟨text, 0, 0, 0⟩

/-- The character `n` places ahead. -/
def ahead (c : Cursor) (n : Nat) : Option Char :=
  c.rest[n]?

/-- Whether some character stands `n` places ahead. -/
def sees (c : Cursor) (char : Char) (n : Nat) : Bool :=
  c.ahead n == some char

/-- Whether the text has ended. -/
def atEnd (c : Cursor) : Bool :=
  c.rest.isEmpty

/-- Whether a space or tab comes next. -/
def atBlank (c : Cursor) : Bool :=
  (c.ahead 0).any isBlank

/-- Whether a line break comes next. -/
def atBreak (c : Cursor) : Bool :=
  (c.ahead 0).any isBreak

/-- Whether a blank, a line break or the end stands `n` places ahead. -/
def endsWord (c : Cursor) (n : Nat) : Bool :=
  (c.ahead n).all fun char => isBlank char || isBreak char

/-- Whether a line break or the end comes next. -/
def endsLine (c : Cursor) : Bool :=
  (c.ahead 0).all isBreak

/-- The position behind the next character, which is no line break. -/
def skip (c : Cursor) : Cursor :=
  ⟨c.rest.drop 1, c.index + 1, c.line, c.column + 1⟩

/-- The position some characters further on in the line. -/
def skipMany (c : Cursor) (n : Nat) : Cursor :=
  ⟨c.rest.drop n, c.index + n, c.line, c.column + n⟩

/-- The position at the beginning of the next line, and the line break as it counts in a value. -/
def skipLine (c : Cursor) : List Char × Cursor :=
  match c.rest with
  | '\r' :: '\n' :: rest => (['\n'], ⟨rest, c.index + 2, c.line + 1, 0⟩)
  | char :: rest =>
      let value := if char.toNat = 0x2028 ∨ char.toNat = 0x2029 then char else '\n'
      ([value], ⟨rest, c.index + 1, c.line + 1, 0⟩)
  | [] => ([], c)

/-- The position behind the characters of some class in this line, and those characters. -/
def skipWhile (c : Cursor) (p : Char → Bool) : List Char × Cursor :=
  let taken := c.rest.takeWhile p
  (taken, c.skipMany taken.length)

/-- Whether a document marker, three of the same character, stands at the beginning of this line. -/
def atMarker (c : Cursor) (char : Char) : Bool :=
  c.column == 0 && c.sees char 0 && c.sees char 1 && c.sees char 2 && c.endsWord 3

/-- Whether either document marker stands at the beginning of this line. -/
def atDocumentMarker (c : Cursor) : Bool :=
  c.atMarker '-' || c.atMarker '.'

end Cursor

end MenuActions.Yaml
