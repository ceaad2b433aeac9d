import MenuActions.Decimal.Layout

/-!
# Documents

The values of a JSON document, and their compact text. Whole numbers and numbers with a fraction are
kept apart, and the fields of an object are written in the order of their names.
-/

namespace MenuActions

/-- A JSON value. -/
inductive Json
  | null
  | bool (value : Bool)
  | int (value : Int)
  | float (value : Float)
  | str (value : String)
  | arr (items : List Json)
  | obj (fields : List (String × Json))
  deriving Inhabited

/-- A table of values by name, in which a name occurs once. -/
abbrev Table (α : Type) := List (String × α)

namespace Table

variable {α : Type}

/-- The value under a name. -/
def get? (table : Table α) (name : String) : Option α :=
  (table.find? fun entry => entry.1 == name).map Prod.snd

/-- Puts a value under a name: in the place of the value that was there, or else at the end. -/
def put : Table α → String → α → Table α
  | [], name, value => [(name, value)]
  | (key, old) :: rest, name, value =>
      if key = name then (name, value) :: rest else (key, old) :: put rest name value

/-- Takes a name out of the table; the others keep their order. -/
def erase (table : Table α) (name : String) : Table α :=
  table.filter fun entry => entry.1 != name

/-- The table of some entries, later ones replacing earlier ones of the same name. -/
def ofList (entries : List (String × α)) : Table α :=
  entries.foldl (fun table entry => table.put entry.1 entry.2) []

/-- The names in the order in which they were first put. -/
def names (table : Table α) : List String :=
  table.map Prod.fst

end Table

namespace Json

/-- A hexadecimal digit. -/
def hexDigit (n : Nat) : Char :=
  (Nat.digitChar n).toLower

/-- One character inside a JSON string. -/
def escapeChar (c : Char) : List Char :=
  if c = '"' then ['\\', '"']
  else if c = '\\' then ['\\', '\\']
  else if c = '\n' then ['\\', 'n']
  else if c = '\r' then ['\\', 'r']
  else if c = '\t' then ['\\', 't']
  else if c.toNat = 8 then ['\\', 'b']
  else if c.toNat = 12 then ['\\', 'f']
  else if c.toNat < 32 then
    ['\\', 'u', '0', '0', hexDigit (c.toNat / 16), hexDigit (c.toNat % 16)]
  else [c]

/-- A text as a JSON string. -/
def writeString (s : String) : String :=
  "\"" ++ String.ofList (s.toList.flatMap escapeChar) ++ "\""

/-- A number as it stands in a document; what is no finite number is written as null. -/
def writeFloat (x : Float) : String :=
  if x.isFinite then Decimal.Layout.document.write x else "null"

mutual

/-- The compact text of a value. -/
def write : Json → String
  | null => "null"
  | bool value => if value then "true" else "false"
  | int value => toString value
  | float value => writeFloat value
  | str value => writeString value
  | arr items => "[" ++ ",".intercalate (writeItems items) ++ "]"
  | obj fields =>
      let sorted := (writeFields fields).mergeSort fun a b => a.1 ≤ b.1
      "\x7b" ++ ",".intercalate (sorted.map fun field => writeString field.1 ++ ":" ++ field.2) ++
        "\x7d"

/-- The texts of some values. -/
def writeItems : List Json → List String
  | [] => []
  | item :: items => write item :: writeItems items

/-- The names and texts of some fields. -/
def writeFields : List (String × Json) → List (String × String)
  | [] => []
  | (name, value) :: fields => (name, write value) :: writeFields fields

end

/-- A value inside running text: a string stands without quotes. -/
def toText : Json → String
  | str value => value
  | value => value.write

/-- The value of a field, if there is such a field. -/
def field? (name : String) : Json → Option Json
  | obj fields => Table.get? fields name
  | _ => none

/-- The text of a string value. -/
def string? : Json → Option String
  | str value => some value
  | _ => none

/-- The items of a list value. -/
def items? : Json → Option (List Json)
  | arr items => some items
  | _ => none

/-- The fields of an object value. -/
def fields? : Json → Option (List (String × Json))
  | obj fields => some fields
  | _ => none

/-- A whole number that is not negative. -/
def nat? : Json → Option Nat
  | int (.ofNat n) => some n
  | _ => none

/-- A truth value. -/
def bool? : Json → Option Bool
  | bool value => some value
  | _ => none

end Json

end MenuActions
