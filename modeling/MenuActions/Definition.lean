import MenuActions.Action
import MenuActions.Json.Basic

/-!
# Definitions

The actions of one menu entry, in the order in which they run. A document gives them as one raw text
or as a list of raw texts, of objects with a type and data, and of pairs.
-/

namespace MenuActions

/-- The actions of one entry, in order. -/
structure Definition where
  actions : List Action
  deriving DecidableEq, Repr

namespace Definition

/-- The definition without actions. -/
def empty : Definition := ⟨[]⟩

/-- The definition with one action. -/
def single (action : Action) : Definition := ⟨[action]⟩

/-- The definition with one more action at its end. -/
def push (definition : Definition) (action : Action) : Definition :=
  ⟨definition.actions ++ [action]⟩

/-- The definition with an action of a type and data at its end. -/
def add (definition : Definition) (type data : String) : Definition :=
  definition.push (.ofParts type data)

/-- Reads one item of a definition. -/
def item? : Json → Option Action
  | .str raw => some (.ofRaw raw)
  | .obj fields =>
      match Table.get? fields "type", Table.get? fields "data" with
      | some (.str type), some (.str data) => some (.ofParts type data)
      | _, _ => none
  | .arr [.str type, .str data] => some (.ofParts type data)
  | _ => none

/-- Reads the items of a definition. -/
def items? : List Json → Option (List Action)
  | [] => some []
  | json :: rest => do
      let action ← item? json
      let actions ← items? rest
      return action :: actions

/-- Reads a definition. -/
def ofJson? : Json → Option Definition
  | .str raw => some (single (.ofRaw raw))
  | .arr items => (items? items).map Definition.mk
  | _ => none

/-- An action as a document. -/
def itemJson (action : Action) : Json :=
  .obj [("type", .str action.type), ("data", .str action.data)]

/-- A definition as a document: a list of objects. -/
def toJson (definition : Definition) : Json :=
  .arr (definition.actions.map itemJson)

/-- What is said of a document that is no definition. -/
def mismatch : String :=
  "data did not match any variant of untagged enum StringOrVec"

end Definition

end MenuActions
