import MenuActions.Decimal.Numeral
import MenuActions.Json.Basic
import MenuActions.Yaml.Value

/-!
# Settings in documents

The parts of a settings document, whatever notation it is written in. Each notation has its own rule
for what may be read as a text and what as a number: `5` in YAML is both, in JSON it is a number.
-/

namespace MenuActions

/-- A part of a settings document. -/
inductive Setting
  /-- Nothing is written: an empty text, or a group of which every field is left out. -/
  | blank
  /-- What can be read as a text, as a number, or as both. -/
  | scalar (text : Option String) (number : Option Nat)
  /-- The fields of a group in their order, without their names. -/
  | positional (values : List Setting)
  /-- The fields of a group by name. -/
  | group (fields : List (String × Setting))
  /-- What is no setting in any place. -/
  | other
  deriving Inhabited

namespace Setting

/-- The text of a setting. -/
def text? : Setting → Option String
  | blank => some ""
  | scalar text _ => text
  | _ => none

/-- The number of a setting. -/
def number? : Setting → Option Nat
  | scalar _ number => number
  | _ => none

/-- The fields of a setting that is a group with fields of some names. Other names and names that
occur twice are refused. -/
def fields? (names : List String) : Setting → Option (Table Setting)
  | blank => some []
  | positional values => if values.length ≤ names.length then some (names.zip values) else none
  | group fields =>
      let written := fields.map Prod.fst
      if written.all names.contains && written.Nodup then some fields else none
  | _ => none

/-- The number in a field, or a standard number if the field is left out. -/
def numberOr? (standard : Nat) (name : String) (fields : Table Setting) : Option Nat :=
  match fields.get? name with
  | none => some standard
  | some setting => setting.number?

/-- The text in a field, or a standard text if the field is left out. -/
def textOr? (standard name : String) (fields : Table Setting) : Option String :=
  match fields.get? name with
  | none => some standard
  | some setting => setting.text?

mutual

/-- A JSON value as a setting. -/
def ofJson : Json → Setting
  | .int (.ofNat n) => if n < Decimal.count64 then scalar none (some n) else other
  | .str text => scalar (some text) none
  | .arr items => positional (ofJsonItems items)
  | .obj fields => group (ofJsonFields fields)
  | _ => other

/-- Some JSON values as settings. -/
def ofJsonItems : List Json → List Setting
  | [] => []
  | item :: items => ofJson item :: ofJsonItems items

/-- Some JSON fields as settings. -/
def ofJsonFields : List (String × Json) → List (String × Setting)
  | [] => []
  | (name, value) :: fields => (name, ofJson value) :: ofJsonFields fields

end

mutual

/-- A YAML value as a setting. A mapping must have texts as keys. -/
def ofNode : Yaml.Node → Setting
  | .scalar tag text style =>
      if text = "" ∧ style = .plain then blank
      else scalar (some text) (Yaml.natural? tag text style)
  | .mapping _ pairs =>
      match ofNodePairs pairs with
      | some fields => group fields
      | none => other
  | .sequence .. => other

/-- The keys and values of a YAML mapping as settings. -/
def ofNodePairs : List (Yaml.Node × Yaml.Node) → Option (List (String × Setting))
  | [] => some []
  | (.scalar _ name _, value) :: pairs =>
      (ofNodePairs pairs).map fun fields => (name, ofNode value) :: fields
  | _ => none

end

end Setting

end MenuActions
