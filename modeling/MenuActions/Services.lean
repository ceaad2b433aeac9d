import MenuActions.ActionError

/-!
# Services

The set of services that a host offers. Commands, messages, titles and sounds are required; without
a service for permissions nothing is permitted, and without one for placeholders none has a value.
-/

namespace MenuActions

/-- The services that a host has named so far. -/
structure ServiceChoice where
  commands : Bool
  messages : Bool
  titles : Bool
  sounds : Bool
  economy : Bool
  permissions : Option (String → Bool)
  placeholders : Option (String → Option String)

/-- A complete set of services, as far as actions can tell. -/
structure Services where
  economy : Bool
  hasPermission : String → Bool
  placeholder : String → Option String

namespace ServiceChoice

/-- No service at all. -/
def empty : ServiceChoice :=
  ⟨false, false, false, false, false, none, none⟩

/-- The first required service that was not named. -/
def missing? (choice : ServiceChoice) : Option String :=
  if !choice.commands then some "command"
  else if !choice.messages then some "message"
  else if !choice.titles then some "title"
  else if !choice.sounds then some "sound"
  else none

/-- The services that were named, if no required one is missing. -/
def build (choice : ServiceChoice) : Except ServiceError Services :=
  match choice.missing? with
  | some name => .error (.unavailable (name ++ " service not set"))
  | none =>
      .ok ⟨choice.economy, choice.permissions.getD fun _ => false,
        choice.placeholders.getD fun _ => none⟩

end ServiceChoice

namespace Services

/-- The services without the one for balances. -/
def withoutEconomy (services : Services) : Services :=
  { services with economy := false }

/-- What a set of services shows of itself in diagnostics. -/
def debugText (services : Services) : String :=
  "Services \x7b economy: " ++ toString services.economy ++ ", .. \x7d"

end Services

end MenuActions
