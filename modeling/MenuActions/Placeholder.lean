import MenuActions.Backend
import MenuActions.Context
import MenuActions.Template

/-!
# Placeholders

The value of a `{name}` token in an action's data: a placeholder of the context, a form result,
something about the actor, or a value that the host provides, in this order. A token that nobody
knows stays.
-/

namespace MenuActions.Placeholder

/-- A form result as text; nothing stands for null. -/
def formText : Json → String
  | .null => ""
  | value => value.toText

/-- What is known about the actor by name. -/
def ofActor (actor : Actor) (name : String) : Option String :=
  if name = "player" ∨ name = "player_name" then some actor.name
  else if name = "player_id" then some actor.id
  else none

/-- The value of a placeholder. -/
def lookup (provider : String → Option String) (actor : Actor) (ctx : Context) (name : String) :
    Option String :=
  ctx.placeholders.get? name <|> (ctx.formResults.get? name).map formText <|>
    ofActor actor name <|> provider name

/-- A text with its known tokens filled. -/
def resolve (provider : String → Option String) (actor : Actor) (ctx : Context) (text : String) :
    String :=
  String.ofList
    (Template.fill Template.isPlaceholderChar (lookup provider actor ctx) text.toList)

end MenuActions.Placeholder
