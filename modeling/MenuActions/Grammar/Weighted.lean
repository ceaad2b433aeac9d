import MenuActions.Decimal.Numeral
import MenuActions.Text.Split

/-!
# Weighted entries

`<action>[:<weight>]`: an entry of a random choice. A number behind the last colon is a weight only
if the text before it is a valid action with exactly one colon; otherwise it is an argument.
-/

namespace MenuActions.Grammar

open Text

/-- A raw action and how often it is drawn, relative to the others. -/
structure Weighted where
  action : String
  weight : Float

namespace Weighted

/-- The text before a trailing number, and that number. -/
def trailingNumber? (entry : List Char) : Option (List Char × Float) :=
  (splitLast ':' entry).bind fun (action, tail) =>
    (Decimal.float? (trim tail)).map fun weight => (trim action, weight)

/-- The action in front of a weight, if the number behind it can be one: the action must have one
colon. -/
def candidate? (entry : List Char) : Option (List Char × Float) :=
  (trailingNumber? entry).filter fun (action, _) => action.count ':' == 1

/-- Reads an entry; `none` when it takes no part in the choice: it is empty, or its weight is zero,
negative or not finite. -/
def read? (isValid : String → Bool) (entry : List Char) : Option Weighted :=
  let entry := trim entry
  if entry.isEmpty then none
  else
    match candidate? entry with
    | some (action, weight) =>
        if isValid (String.ofList action) then
          if weight > 0.0 && weight.isFinite then some ⟨String.ofList action, weight⟩ else none
        else some ⟨String.ofList entry, 1.0⟩
    | none => some ⟨String.ofList entry, 1.0⟩

/-- The first entry at which the running total of the shares reaches `draw`. Shares may be numbers
of any kind. -/
def firstReaching {R α : Type} [Add R] [LE R] [DecidableLE R] (share : α → R) (draw total : R) :
    List α → Option α
  | [] => none
  | entry :: entries =>
      if draw ≤ total + share entry then some entry
      else firstReaching share draw (total + share entry) entries

/-- The entry that a draw falls to; the last one when rounding has left the draw beyond all shares.
-/
def pick {R α : Type} [Add R] [LE R] [DecidableLE R] (share : α → R) (draw zero : R)
    (entries : List α) : Option α :=
  (firstReaching share draw zero entries).or entries.getLast?

/-- Draws an entry: `draw` gives a number below the total of the shares. There is nothing to draw when
the total is not positive or, as sums of doubles can be, not finite. -/
def choose {R α : Type} [Add R] [LE R] [DecidableLE R] [LT R] [DecidableLT R] (share : α → R)
    (zero : R) (isFinite : R → Bool) (draw : R → R) (entries : List α) : Option α :=
  let total := entries.foldl (fun sum entry => sum + share entry) zero
  if total > zero && isFinite total then pick share (draw total) zero entries else none

/-- Draws an entry with a chance proportional to its weight; `position` is in `[0, 1)`. -/
def select (entries : List Weighted) (position : Float) : Option Weighted :=
  choose Weighted.weight 0.0 Float.isFinite (fun total => position * total) entries

end Weighted

end MenuActions.Grammar
