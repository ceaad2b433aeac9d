import MenuActions.Definition
import MenuActions.Yaml.Value

/-!
# Definitions in YAML

A definition is one raw text, or a list of raw texts, of mappings with a type and data, and of
pairs.
-/

namespace MenuActions.Definition

/-- The name of a field of an action: written out or given by its position. Other fields have no
name that matters. -/
def fieldName? : Yaml.Value → Option String
  | .str name => some name
  | .int (.ofNat 0) => some "type"
  | .int (.ofNat 1) => some "data"
  | .int (.ofNat _) => some ""
  | _ => none

/-- The fields of an action in a mapping. -/
def fields? : List (Yaml.Value × Yaml.Value) → Option (List (String × Yaml.Value))
  | [] => some []
  | (key, value) :: pairs => do
      let name ← fieldName? key
      let rest ← fields? pairs
      return (name, value) :: rest

/-- The text of a field that occurs once. -/
def textOf? (fields : List (String × Yaml.Value)) (name : String) : Option String :=
  match fields.filter fun field => field.1 == name with
  | [(_, .str text)] => some text
  | _ => none

/-- Reads one item of a definition. -/
def itemOfYaml? : Yaml.Value → Option Action
  | .str raw => some (.ofRaw raw)
  | .record pairs => do
      let fields ← fields? pairs
      return .ofParts (← textOf? fields "type") (← textOf? fields "data")
  | .list [.str type, .str data] => some (.ofParts type data)
  | _ => none

/-- Reads the items of a definition. -/
def itemsOfYaml? : List Yaml.Value → Option (List Action)
  | [] => some []
  | value :: rest => do
      let action ← itemOfYaml? value
      let actions ← itemsOfYaml? rest
      return action :: actions

/-- Reads a definition from a value. -/
def ofValue? : Yaml.Value → Option Definition
  | .str raw => some (single (.ofRaw raw))
  | .list items => (itemsOfYaml? items).map Definition.mk
  | _ => none

/-- Reads a definition from a YAML text. -/
def ofYaml? (text : String) : Option Definition :=
  match Yaml.Node.ofText text.toList with
  | .ok (some node) => (Yaml.Value.ofNode? Yaml.Value.maxDepth node).bind ofValue?
  | _ => none

end MenuActions.Definition
