import MenuActions.Grammar.Condition
import MenuActions.Grammar.TopLevel
import MenuActions.Grammar.Values

/-!
# Conditional actions

`check:"<condition>" true: <actions> false: <actions>`, with the branches in either order and one of
them optional. A branch is one action, a bracket list or a block of actions.
-/

namespace MenuActions.Grammar

open Text

/-- A condition as written and as read, and the raw actions of its two branches. -/
structure Conditional where
  source : String
  expression : Expression
  whenTrue : List String
  whenFalse : List String
  deriving DecidableEq, Repr

namespace Conditional

/-- The keyword before the condition. -/
def checkKeyword : List Char := "check:".toList

/-- The keyword before the actions for a condition that holds. -/
def trueKeyword : List Char := "true:".toList

/-- The keyword before the actions for a condition that does not hold. -/
def falseKeyword : List Char := "false:".toList

/-- The raw actions of a branch. A block with a type name is one action. -/
def readBranch (text : List Char) : Except ParseError (List String) :=
  let text := trim text
  let actions :=
    if text.isEmpty then .ok []
    else if (Block.typeName? text).isSome then .ok [text]
    else
      match text with
      | '[' :: _ => BracketList.values text
      | '{' :: _ => readValues [] text
      | _ => .ok [text]
  actions.map fun entries => entries.map String.ofList

/-- Reads the two branches, given the text from the first keyword on. The true branch is read first,
whichever comes first in the text. -/
def readBranches (keyword after : List Char) : Except ParseError (List String × List String) :=
  if keyword = trueKeyword then
    match TopLevel.findKeyword [falseKeyword] (.start ':') after with
    | some (mine, _, other) => do
        let whenTrue ← readBranch mine
        let whenFalse ← readBranch other
        return (whenTrue, whenFalse)
    | none => do return (← readBranch after, [])
  else
    match TopLevel.findKeyword [trueKeyword] (.start ':') after with
    | some (mine, _, other) => do
        let whenTrue ← readBranch other
        let whenFalse ← readBranch mine
        return (whenTrue, whenFalse)
    | none => do return ([], ← readBranch after)

/-- Reads what follows a condition. `previous` is the last character of the condition and `offset`
the position at which the text behind it begins. -/
def readTail (source : List Char) (previous : Char) (offset : Nat) (tail : List Char) :
    Except ParseError Conditional := do
  let expression ← Expression.read source
  match TopLevel.findKeyword [trueKeyword, falseKeyword] (.start previous) tail with
  | none => .error (.missingKeyword "true:")
  | some (between, keyword, after) =>
      let (whenTrue, whenFalse) ← readBranches keyword after
      match trimStart between with
      | found :: _ => .error (.unexpected found offset .branchKeyword)
      | [] => return ⟨String.ofList source, expression, whenTrue, whenFalse⟩

/-- Cuts a condition without quotes off its branches: it runs to the first keyword. -/
def splitBare (previous : Char) (text : List Char) : List Char × List Char :=
  match TopLevel.findKeyword [trueKeyword, falseKeyword] (.start previous) text with
  | some (condition, _, _) => (condition, text.drop condition.length)
  | none => (text, [])

/-- Reads a conditional action that begins with its keyword. -/
def read (data : List Char) : Except ParseError Conditional :=
  let text := trim data
  match afterKeyword checkKeyword text with
  | none => .error (.missingKeyword "check:")
  | some rest =>
      match trimStart rest with
      | '"' :: quoted =>
          match Quoted.decode quoted with
          | none =>
              .error (.unterminatedQuote (offsetIn (byteLength text) ('"' :: quoted)))
          | some (source, tail) => readTail source '"' (offsetIn (byteLength text) tail) tail
      | bare =>
          let previous := ((rest.takeWhile isBlank).getLast?).getD ':'
          let (condition, tail) := splitBare previous bare
          let last := (condition.getLast?).getD previous
          readTail (trim condition) last (offsetIn (byteLength text) tail) tail

/-- Reads the data of a conditional action, with its keyword or without. -/
def readData (data : List Char) : Except ParseError Conditional :=
  let text := trim data
  match afterKeyword checkKeyword text with
  | some _ => read text
  | none => read (checkKeyword ++ text)

end Conditional

end MenuActions.Grammar
