import MenuActions.Grammar.Block
import MenuActions.Text.LetterCase

/-!
# Actions

An action is a type name and its data. Raw text is cut at its first colon; a block keeps its whole
text as data, and text without a type name in front is data of a default type.
-/

namespace MenuActions

open Text

/-- One action: the name of its type in lower case, and its data with placeholders unfilled. -/
structure Action where
  type : String
  data : String
  deriving DecidableEq, Repr

namespace Action

/-- The type that raw text without a type name gets when nothing else is configured. -/
def defaultType : String := "message"

/-- A type name as it is stored and looked up: trimmed and in lower case. -/
def normalizeName (name : String) : String :=
  String.ofList (lower (trim name.toList))

/-- An action of a type whose name is normalized first. -/
def ofParts (type data : String) : Action :=
  ⟨normalizeName type, data⟩

/-- Whether a text can stand in front of the colon as a type name. -/
def isTypeName (text : List Char) : Bool :=
  match text with
  | [] => false
  | first :: _ => first.isAlpha && text.all Grammar.Block.isNameChar

/-- Cuts a trimmed text at its first colon when a type name stands in front of it. -/
def ofColon (default : String) (text : List Char) : Action :=
  match splitFirst ':' text with
  | some (type, data) =>
      if isTypeName type then ofParts (String.ofList type) (String.ofList (trim data))
      else ofParts default (String.ofList text)
  | none => ofParts default (String.ofList text)

/-- Reads raw text; `default` is the type of text without a type name. -/
def read (default raw : String) : Action :=
  let text := trim raw.toList
  match Grammar.Block.typeName? text with
  | some name => ofParts (String.ofList name) (String.ofList text)
  | none => ofColon default text

/-- Whether a trimmed text is a block whose name, up to its first brace, is a type name. -/
def headedBlock? (text : List Char) : Option (List Char) :=
  match splitFirst '{' text with
  | some (head, body) =>
      let head := trimEnd head
      if isTypeName head && Grammar.Block.opensBody body && Grammar.Block.endsWith '}' text then
        some head
      else none
  | none => none

/-- Reads the raw text of a definition's item. -/
def ofRaw (raw : String) : Action :=
  let text := trim raw.toList
  match headedBlock? text with
  | some head => ofParts (String.ofList head) (String.ofList text)
  | none => ofColon defaultType text

/-- The action written as `type:data`. -/
def toRaw (action : Action) : String :=
  action.type ++ ":" ++ action.data

end Action

end MenuActions
