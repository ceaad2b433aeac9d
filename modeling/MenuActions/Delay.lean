import MenuActions.ActionError
import MenuActions.Decimal.Numeral
import MenuActions.Grammar.Values

/-!
# Delays

`<ms>[:<action>]`, or a block whose first value is the time and whose other values are actions. The
time is a whole number of milliseconds up to a limit.
-/

namespace MenuActions

open Text

/-- A time to wait, and the raw actions to run after it. -/
structure Delay where
  ms : Nat
  chained : List String
  deriving DecidableEq, Repr

namespace Delay

/-- The longest delay there can be, whatever is configured. -/
def cap : Nat := 30000

/-- The name of the action type, which errors mention. -/
def typeName : String := "delay"

/-- The time and the chained actions as written. -/
def split (data : List Char) : Except ActionError (List Char × List (List Char)) :=
  let data := trim data
  if Grammar.Block.hasType typeName.toList data || data.head? == some '{' then
    match Grammar.Block.values data with
    | .error error => .error (.ofParse typeName error)
    | .ok [] => .error (.validation typeName "missing delay")
    | .ok (time :: chained) => .ok (time, chained)
  else
    match Grammar.arguments 2 data with
    | [time, action] => .ok (time, if action.isEmpty then [] else [action])
    | pieces => .ok (pieces.headD [], [])

/-- Reads a time of at most `max` milliseconds, and never more than the cap. -/
def readTime (max : Nat) (time : List Char) : Except ActionError Nat :=
  match Decimal.int64? (trim time) with
  | none => .error (.validation typeName ("'" ++ String.ofList time ++ "' is not a number"))
  | some n =>
      let limit := min max cap
      if n < 0 then .error (.validation typeName "delay must not be negative")
      else if limit < n.toNat then
        .error (.validation typeName
          ("delay of " ++ toString n.toNat ++ " ms exceeds the maximum of " ++ toString limit ++
            " ms"))
      else .ok n.toNat

/-- Reads a delay. -/
def read (max : Nat) (data : List Char) : Except ActionError Delay := do
  let (time, chained) ← split data
  let ms ← readTime max time
  return ⟨ms, chained.map String.ofList⟩

end Delay

end MenuActions
