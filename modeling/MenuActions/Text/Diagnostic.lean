import MenuActions.Text.EscapeTable
import MenuActions.Text.LetterCase

/-!
# Texts in diagnostics

A text between double quotes in which everything that could not be seen is written as an escape.
-/

namespace MenuActions.Text

/-- A character's number in lower-case hexadecimal digits. -/
def hexNumber (c : Char) : List Char :=
  (Nat.toDigits 16 c.toNat).map Char.toLower

/-- A character inside a quoted diagnostic. -/
def showChar (c : Char) : List Char :=
  if c = '"' then ['\\', '"']
  else if c = '\\' then ['\\', '\\']
  else if c = '\t' then ['\\', 't']
  else if c = '\r' then ['\\', 'r']
  else if c = '\n' then ['\\', 'n']
  else if c.toNat = 0 then ['\\', '0']
  else if c.toNat < 0x20 || (0x7F ≤ c.toNat && inRanges numberedRanges c) then
    ['\\', 'u', '{'] ++ hexNumber c ++ ['}']
  else [c]

/-- A text as it stands in a diagnostic. -/
def showQuoted (s : String) : String :=
  "\"" ++ String.ofList (s.toList.flatMap showChar) ++ "\""

end MenuActions.Text
