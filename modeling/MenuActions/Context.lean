import MenuActions.Json.Basic

/-!
# Actors and contexts

Who an action runs for, and what is known when it runs.
-/

namespace MenuActions

/-- The one an action runs for. -/
structure Actor where
  id : String
  name : String
  locale : Option String
  deriving DecidableEq, Repr

/-- What is known when an action runs; `depth` counts how deep it is nested. -/
structure Context where
  placeholders : Table String
  formResults : Table Json
  metadata : Table Json
  locale : Option String
  depth : Nat

namespace Context

/-- The context in which nothing is known. -/
def empty : Context :=
  ⟨[], [], [], none, 0⟩

/-- The context one level deeper. -/
def nested (ctx : Context) : Context :=
  { ctx with depth := ctx.depth + 1 }

/-- The locale for messages: the context's own, or else the actor's. -/
def effectiveLocale (ctx : Context) (actor : Actor) : Option String :=
  ctx.locale <|> actor.locale

/-- The values of a document's fields, all of which must be texts. -/
def textFields? : List (String × Json) → Option (Table String)
  | [] => some []
  | (name, .str value) :: fields => (textFields? fields).map fun rest => (name, value) :: rest
  | _ => none

/-- The parts of a context in a document, each of which may be missing. -/
def ofParts? (placeholders formResults metadata locale : Option Json) : Option Context := do
  let placeholders ← match placeholders with
    | none => some []
    | some (.obj fields) => textFields? fields
    | some _ => none
  let formResults ← (formResults.getD (.obj [])).fields?
  let metadata ← (metadata.getD (.obj [])).fields?
  let locale ← match locale with
    | none => some none
    | some .null => some none
    | some (.str locale) => some (some locale)
    | some _ => none
  return ⟨placeholders, formResults, metadata, locale, 0⟩

/-- Reads a context from a document: an object with named parts, or a list of the parts in order. -/
def ofJson? : Json → Option Context
  | .obj fields =>
      ofParts? (Table.get? fields "placeholders") (Table.get? fields "form_results")
        (Table.get? fields "metadata") (Table.get? fields "locale")
  | .arr parts =>
      if parts.length ≤ 4 then ofParts? parts[0]? parts[1]? parts[2]? parts[3]? else none
  | _ => none

/-- A context as a document, without its depth. -/
def toJson (ctx : Context) : Json :=
  let locale : List (String × Json) := match ctx.locale with
    | some locale => [("locale", .str locale)]
    | none => []
  .obj ([ ("placeholders", .obj (ctx.placeholders.map fun (name, value) => (name, .str value))),
    ("form_results", .obj ctx.formResults), ("metadata", .obj ctx.metadata) ] ++ locale)

end Context

/-- An actor as a document. -/
def Actor.toJson (actor : Actor) : Json :=
  let locale : List (String × Json) := match actor.locale with
    | some locale => [("locale", .str locale)]
    | none => []
  .obj ([("id", .str actor.id), ("name", .str actor.name)] ++ locale)

end MenuActions
