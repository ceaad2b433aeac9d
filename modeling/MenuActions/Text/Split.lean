import MenuActions.Text.Blank

/-!
# Cutting text at a separator

Texts are cut at the first, the last or every occurrence of one character, or after a keyword
that is compared without regard to ASCII case.
-/

namespace MenuActions.Text

/-- Cuts at the first `sep`, which belongs to neither part. -/
def splitFirst (sep : Char) : List Char → Option (List Char × List Char)
  | [] => none
  | c :: rest =>
      if c = sep then some ([], rest)
      else (splitFirst sep rest).map fun (left, right) => (c :: left, right)

/-- Cuts at the last `sep`, which belongs to neither part. -/
def splitLast (sep : Char) : List Char → Option (List Char × List Char)
  | [] => none
  | c :: rest =>
      match splitLast sep rest with
      | some (left, right) => some (c :: left, right)
      | none => if c = sep then some ([], rest) else none

/-- The pieces between the separators: always one more than there are separators. -/
def splitAll (sep : Char) : List Char → List (List Char)
  | [] => [[]]
  | c :: rest =>
      if c = sep then [] :: splitAll sep rest
      else
        match splitAll sep rest with
        | [] => [[c]]
        | piece :: pieces => (c :: piece) :: pieces

/-- At most `limit + 1` pieces; the last one keeps the separators that are left. -/
def splitUpTo (sep : Char) : Nat → List Char → List (List Char)
  | 0, s => [s]
  | limit + 1, s =>
      match splitFirst sep s with
      | none => [s]
      | some (left, right) => left :: splitUpTo sep limit right

/-- The pieces put together again with `sep` between them. -/
def joinWith (sep : List Char) : List (List Char) → List Char
  | [] => []
  | [piece] => piece
  | piece :: pieces => piece ++ sep ++ joinWith sep pieces

/-- What follows `keyword` at the start of a text, letters compared without their ASCII case. -/
def afterKeyword : (keyword s : List Char) → Option (List Char)
  | [], s => some s
  | _ :: _, [] => none
  | k :: keyword, c :: s => if k.toLower = c.toLower then afterKeyword keyword s else none

/-- Whether two texts are the same up to the case of ASCII letters. -/
def sameIgnoringCase (s t : List Char) : Bool :=
  s.map Char.toLower == t.map Char.toLower

/-- Whether `part` occurs anywhere in a text. -/
def hasPart (part : List Char) : List Char → Bool
  | [] => part.isEmpty
  | c :: rest => part.isPrefixOf (c :: rest) || hasPart part rest

end MenuActions.Text
