import MenuActions.Grammar.Values
import MenuActions.Decimal.Layout
import MenuActions.Text.LetterCase

/-!
# Economy operations

`<add|remove|set|check>[:<amount>]`, with other words for the same operations. What is added or
removed is positive, what is set is not negative, and a check takes no amount.
-/

namespace MenuActions

open Text

/-- An operation on the actor's balance. -/
inductive EconomyOp
  | add (amount : Float)
  | remove (amount : Float)
  | set (amount : Float)
  | check

namespace EconomyOp

/-- Reads a finite amount. -/
def amount? (text : List Char) : Option Float :=
  (Decimal.float? text).filter Float.isFinite

/-- Reads an operation. -/
def read? (value : List Char) : Option EconomyOp :=
  match Grammar.arguments 0 value with
  | [word] =>
      let word := String.ofList (lower word)
      if word = "check" ∨ word = "balance" then some .check else none
  | [word, amount] =>
      let word := String.ofList (lower word)
      if word = "add" ∨ word = "give" ∨ word = "deposit" then
        ((amount? amount).filter fun a => a > 0.0).map .add
      else if word = "remove" ∨ word = "take" ∨ word = "withdraw" then
        ((amount? amount).filter fun a => a > 0.0).map .remove
      else if word = "set" then ((amount? amount).filter fun a => a ≥ 0.0).map .set
      else none
  | _ => none

end EconomyOp

end MenuActions
