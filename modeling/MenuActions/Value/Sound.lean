import MenuActions.Decimal.Numeral
import MenuActions.Text.Split

/-!
# Sounds

`<name>[:<volume>[:<pitch>]]`. Up to two numbers at the end are volume and pitch; any other colon
belongs to the name.
-/

namespace MenuActions

open Text

/-- A sound to play. -/
structure Sound where
  name : String
  volume : Float32
  pitch : Float32

namespace Sound

/-- Takes a number off the end of the pieces, which are given last first. One piece is always left.
-/
def takeNumber? : List (List Char) → Option (Float32 × List (List Char))
  | last :: piece :: pieces =>
      (Decimal.float32? last).map fun number => (number, piece :: pieces)
  | _ => none

/-- Name pieces, volume and pitch of a value whose pieces are given last first. -/
def splitNumbers (pieces : List (List Char)) : List (List Char) × Float32 × Float32 :=
  match takeNumber? pieces with
  | none => (pieces, 1.0, 1.0)
  | some (last, pieces) =>
      match takeNumber? pieces with
      | none => (pieces, last, 1.0)
      | some (volume, pieces) => (pieces, volume, last)

/-- Reads a sound. The volume must not be negative and the pitch must be positive. -/
def read? (value : List Char) : Option Sound :=
  let pieces := (splitAll ':' value).map trim
  let (namePieces, volume, pitch) := splitNumbers pieces.reverse
  let name := joinWith [':'] namePieces.reverse
  if name.isEmpty then none
  else if !volume.isFinite || volume < 0.0 || !pitch.isFinite || pitch ≤ 0.0 then none
  else some ⟨String.ofList name, volume, pitch⟩

end Sound

end MenuActions
