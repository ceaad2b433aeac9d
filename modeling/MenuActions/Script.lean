import MenuActions.Config.Document

/-!
# Scripts

A script gives names to lists of raw actions. In a YAML text it is a mapping; an entry is one raw
action or a list of them, and a later entry replaces an earlier one of the same name.
-/

namespace MenuActions

/-- Lists of raw actions by name, in the order of the text. -/
structure Script where
  entries : Table (List String)
  deriving DecidableEq, Repr

namespace Script

/-- The script without entries. -/
def empty : Script := ⟨[]⟩

/-- The raw actions of an entry. -/
def get? (script : Script) (name : String) : Option (List String) :=
  script.entries.get? name

/-- The names of the entries. -/
def names (script : Script) : List String :=
  script.entries.names

/-- The texts of some values, all of which must be texts. -/
def texts? : List Yaml.Value → Option (List String)
  | [] => some []
  | .str text :: values => (texts? values).map (text :: ·)
  | _ => none

/-- The raw actions of an entry: one text or a list of texts. -/
def entry? : Yaml.Value → Option (List String)
  | .str text => some [text]
  | .list items => texts? items
  | _ => none

/-- The entries of a mapping. Any scalar is a name. -/
def entries? : List (Yaml.Node × Yaml.Node) → Option (List (String × List String))
  | [] => some []
  | (.scalar _ name _, node) :: pairs => do
      let value ← Yaml.Value.ofNode? (Yaml.Value.maxDepth - 1) node
      let entry ← entry? value
      let rest ← entries? pairs
      return (name, entry) :: rest
  | _ => none

/-- Whether a scalar stands for a script without entries. -/
def isNothing (tag : Option String) (text : String) (style : Yaml.Style) : Bool :=
  style == .plain &&
    match tag with
    | none => text == "" || Yaml.isNull text
    | some tag => if tag == "tag:yaml.org,2002:null" then Yaml.isNull text else text == ""

/-- The entries of a node. -/
def ofNode? : Yaml.Node → Option (Table (List String))
  | .mapping _ pairs => (entries? pairs).map Table.ofList
  | .scalar tag text style => if isNothing tag text style then some [] else none
  | .sequence .. => none

/-- Checks that every entry has an action. -/
def check (entries : Table (List String)) : Except DocumentError Script :=
  match entries.find? fun entry => entry.2.isEmpty with
  | some (name, _) => .error (.invalid ⟨name, "entry has no actions"⟩)
  | none => .ok ⟨entries⟩

/-- A script from a YAML text. -/
def ofYaml (text : String) : Except DocumentError Script :=
  if Text.isBlankText text.toList then .ok empty
  else
    match Yaml.Node.ofText text.toList with
    | .ok none => .ok empty
    | .ok (some node) =>
        match ofNode? node with
        | some entries => check entries
        | none => .error .malformed
    | .error _ => .error .malformed

end Script

end MenuActions
