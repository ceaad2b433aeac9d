import MenuActions.Decimal.Numeral
import MenuActions.Json.Basic
import MenuActions.Text.Split

/-!
# Titles

`<title>[:<subtitle>[:<fade in>:<stay>:<fade out>]]`, the three times in ticks. Three numbers at the
end of at least five pieces are the times; any other colon belongs to the subtitle.
-/

namespace MenuActions

open Text

/-- A title on the actor's screen. -/
structure Title where
  title : String
  subtitle : String
  fadeIn : Nat
  stay : Nat
  fadeOut : Nat
  deriving DecidableEq, Repr

namespace Title

/-- The largest time. -/
def maxTime : Nat := 4294967295

/-- The times of a title that gives none. -/
def defaultTimes : Nat × Nat × Nat := (10, 70, 20)

/-- The times in three pieces that all denote numbers. -/
def readTimes? : List (List Char) → Option (Nat × Nat × Nat)
  | [fadeIn, stay, fadeOut] => do
      let fadeIn ← Decimal.natUpTo? maxTime (trim fadeIn)
      let stay ← Decimal.natUpTo? maxTime (trim stay)
      let fadeOut ← Decimal.natUpTo? maxTime (trim fadeOut)
      return (fadeIn, stay, fadeOut)
  | _ => none

/-- The title in the text pieces of a value; `none` when title and subtitle are both empty. -/
def ofPieces (pieces : List (List Char)) (times : Nat × Nat × Nat) : Option Title :=
  let title := trim (pieces.headD [])
  let subtitle := trim (joinWith [':'] pieces.tail)
  if title.isEmpty && subtitle.isEmpty then none
  else
    some ⟨String.ofList title, String.ofList subtitle, times.1, times.2.1, times.2.2⟩

/-- Reads a title. -/
def read? (value : List Char) : Option Title :=
  let pieces := splitAll ':' value
  let cut := pieces.length - 3
  let times := if 5 ≤ pieces.length then readTimes? (pieces.drop cut) else none
  match times with
  | some times => ofPieces (pieces.take cut) times
  | none => ofPieces pieces defaultTimes

/-- A title written with its times. -/
def render (t : Title) : String :=
  t.title ++ ":" ++ t.subtitle ++ ":" ++ toString t.fadeIn ++ ":" ++ toString t.stay ++ ":" ++
    toString t.fadeOut

/-- A title as a document. -/
def toJson (t : Title) : Json :=
  .obj
    [ ("title", .str t.title), ("subtitle", .str t.subtitle), ("fade_in", .int t.fadeIn),
      ("stay", .int t.stay), ("fade_out", .int t.fadeOut) ]

end Title

end MenuActions
