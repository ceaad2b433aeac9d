import MenuActions.Decimal.Numeral
import MenuActions.Grammar.Values
import MenuActions.Text.LetterCase

/-!
# Inventory operations

`<give|clear>[:<item>[:<amount>]]`. A number at the end, behind an item, is the amount; any other
colon belongs to the item.
-/

namespace MenuActions

open Text

/-- An operation on the actor's inventory. -/
inductive InventoryOp
  | give (item : String) (amount : Nat)
  | clear (item : Option String) (amount : Option Nat)
  deriving DecidableEq, Repr

namespace InventoryOp

/-- The largest amount. -/
def maxAmount : Nat := 4294967295

/-- Takes the amount off the end of the arguments behind the operation. -/
def splitAmount (arguments : List (List Char)) : List (List Char) × Option Nat :=
  if 2 ≤ arguments.length then
    match Decimal.natUpTo? maxAmount (arguments.getLastD []) with
    | some amount => (arguments.dropLast, some amount)
    | none => (arguments, none)
  else (arguments, none)

/-- The operation of some name, on an item and an amount. -/
def ofParts (word item : String) (amount : Option Nat) : Option InventoryOp :=
  if amount = some 0 then none
  else if word = "give" then
    if item = "" then none else some (.give item (amount.getD 1))
  else if word = "clear" then some (.clear (if item = "" then none else some item) amount)
  else none

/-- Reads an operation. -/
def read? (value : List Char) : Option InventoryOp :=
  match Grammar.arguments 0 value with
  | [] => none
  | word :: arguments =>
      let (items, amount) := splitAmount arguments
      ofParts (String.ofList (lower word)) (String.ofList (joinWith [':'] items)) amount

end InventoryOp

end MenuActions
