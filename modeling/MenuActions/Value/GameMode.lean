import MenuActions.Text.Blank
import MenuActions.Text.LetterCase

/-!
# Game modes

The four modes, their numbers, and the words by which they are known.
-/

namespace MenuActions

/-- A game mode. -/
inductive GameMode
  | survival
  | creative
  | adventure
  | spectator
  deriving DecidableEq, Repr

namespace GameMode

/-- The name of a mode. -/
def name : GameMode → String
  | survival => "survival"
  | creative => "creative"
  | adventure => "adventure"
  | spectator => "spectator"

/-- The number of a mode. -/
def id : GameMode → Nat
  | survival => 0
  | creative => 1
  | adventure => 2
  | spectator => 3

/-- The abbreviation of a mode. -/
def abbreviation : GameMode → String
  | survival => "s"
  | creative => "c"
  | adventure => "a"
  | spectator => "sp"

/-- Every mode. -/
def all : List GameMode :=
  [survival, creative, adventure, spectator]

/-- Reads a mode by name, abbreviation or number. -/
def read? (value : List Char) : Option GameMode :=
  let word := String.ofList (Text.lower (Text.trim value))
  all.find? fun mode =>
    word == mode.name || word == mode.abbreviation || word == toString mode.id

end GameMode

end MenuActions
