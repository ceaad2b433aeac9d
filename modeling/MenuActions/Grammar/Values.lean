import MenuActions.Grammar.BracketList

/-!
# Values of an action

An action's data holds one value or several: a block, a bracket list that begins with a quoted item,
or plain text. Plain text that merely starts with a bracket or a brace stays one value.
-/

namespace MenuActions.Grammar

open Text

/-- The values in the data of an action of the given type. -/
def readValues (type data : List Char) : Except ParseError (List (List Char)) :=
  let data := trim data
  if data.isEmpty then .ok []
  else if Block.hasType type data || Block.isBare data then Block.values data
  else if BracketList.isQuoted data then BracketList.values data
  else .ok [data]

/-- The colon-separated arguments of a value, each trimmed; with `limit = n + 1` at most that many,
the last one keeping its colons. -/
def arguments (limit : Nat) (data : List Char) : List (List Char) :=
  let pieces :=
    match limit with
    | 0 => splitAll ':' data
    | limit + 1 => splitUpTo ':' limit data
  pieces.map trim

end MenuActions.Grammar
