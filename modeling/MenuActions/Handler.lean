import MenuActions.Config
import MenuActions.Grammar.Conditional
import MenuActions.Grammar.Weighted

/-!
# Handlers

What answers to a type name: one of the value actions, one of the three combinators that run further
actions, or a handler that the host has added.
-/

namespace MenuActions

/-- What an added handler does with its data. -/
inductive Behaviour
  /-- Succeeds. -/
  | succeed
  /-- Fails, with a result. -/
  | fail
  /-- Succeeds in part. -/
  | partly
  /-- Refuses its data. -/
  | refuse
  /-- Fails, with an error. -/
  | raise
  /-- Breaks down with a fixed text. -/
  | panicFixed
  /-- Breaks down with a text that shows the data. -/
  | panicShowing
  /-- Breaks down without a text. -/
  | panicSilent
  /-- Runs its data as an action. -/
  | forward
  deriving DecidableEq, Repr

/-- A handler that the host has added. -/
structure AddedHandler where
  name : String
  aliases : List String
  description : String
  behaviour : Behaviour
  deriving DecidableEq, Repr

/-- What answers to a type name. -/
inductive Handler
  | value (action : ValueAction) (pacing : Nat)
  | conditional
  | random
  | delay (maxMs : Nat)
  | added (handler : AddedHandler)
  deriving DecidableEq, Repr

namespace Handler

/-- The name of the type that a handler is registered under. -/
def typeName : Handler → String
  | value action _ => action.typeName
  | conditional => "conditional"
  | random => "random"
  | delay _ => Delay.typeName
  | added handler => handler.name

/-- The other names that lead to a handler. -/
def aliases : Handler → List String
  | conditional => ["check"]
  | added handler => handler.aliases
  | _ => []

/-- What a handler does, in one line. -/
def describe : Handler → String
  | value action _ => action.describe
  | conditional => "Run one of two action lists depending on a condition"
  | random => "Run one action chosen at random by weight"
  | delay _ => "Wait before running the chained actions"
  | added handler => handler.description

/-- Raw actions that show how a handler is used. -/
def examples : Handler → List String
  | value action _ => action.examples
  | conditional =>
      [ "check:\"placeholder:level >= 10\" true: message:&aUnlocked false: message:&cToo low",
        "check:\"permission:shop.vip || placeholder:rank == gold\" true: [ \"console:give " ++
          "\x7bplayer\x7d diamond\", \"message:Enjoy\" ]",
        "check:\"placeholder:balance < 100\" false: \x7b - \"economy:remove:100\" - " ++
          "\"message:Bought\" \x7d" ]
  | random =>
      [ "random \x7b - \"message:Common prize:8\" - \"message:Rare prize:2\" \x7d",
        "random:[ \"economy:add:50\", \"economy:add:100\" ]" ]
  | delay _ =>
      [ "delay:1000:message:One second later",
        "delay \x7b - \"2500\" - \"sound:entity.player.levelup\" - \"message:Done\" \x7d",
        "delay:0:console:say now" ]
  | added _ => []

/-- The values of a value action's data. -/
def readTexts (type data : String) : Except Grammar.ParseError (List String) :=
  (Grammar.readValues type.toList data.toList).map fun values => values.map String.ofList

/-- Whether an entry of a random choice can be drawn: it is not blank, and no random block. -/
def isDrawable (entry : String) : Bool :=
  !Grammar.Block.isRandom entry.toList && !Text.isBlankText entry.toList

/-- Whether a handler would accept some data. -/
def isValid (handler : Handler) (data : String) : Bool :=
  match handler with
  | value action _ =>
      match readTexts action.typeName data with
      | .ok values => !values.isEmpty && values.all action.isValid
      | .error _ => false
  | conditional => (Grammar.Conditional.readData data.toList).isOk
  | random =>
      match readTexts "random" data with
      | .ok entries => entries.any isDrawable
      | .error _ => false
  | delay maxMs => (Delay.read maxMs data.toList).isOk
  | added handler =>
      handler.behaviour != .refuse && !Text.hasPart "bad".toList data.toList

/-- Every handler that an engine comes with, in the order in which they are registered. -/
def builtin (config : Config) : List Handler :=
  (ValueAction.all.map fun action => value action (config.pacing action)) ++
    [conditional, random, delay (min config.maxDelayMs Delay.cap)]

end Handler

end MenuActions
