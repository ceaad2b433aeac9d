import MenuActions.ActionResult
import MenuActions.Backend
import MenuActions.Value.Economy
import MenuActions.Value.GameMode
import MenuActions.Value.Inventory

/-!
# Value actions

The ten actions that do one thing per value: they check the value, call a service and report. A
service call that fails may be tried again in another form. What is tried after a refusal is tried on
the backend that the refusal has left.
-/

namespace MenuActions

open Text

/-- The action types that are applied to one value at a time. -/
inductive ValueAction
  | message
  | broadcast
  | actionbar
  | title
  | sound
  | command
  | console
  | economy
  | gamemode
  | inventory
  deriving DecidableEq, Repr

namespace ValueAction

/-- The name of the action type. -/
def typeName : ValueAction → String
  | message => "message"
  | broadcast => "broadcast"
  | actionbar => "actionbar"
  | title => "title"
  | sound => "sound"
  | command => "command"
  | console => "console"
  | economy => "economy"
  | gamemode => "gamemode"
  | inventory => "inventory"

/-- Every value action, in the order in which they are registered. -/
def all : List ValueAction :=
  [message, broadcast, actionbar, title, sound, command, console, economy, gamemode, inventory]

/-- What the action does, in one line. -/
def describe : ValueAction → String
  | message => "Send a chat message to the player"
  | broadcast => "Send a chat message to every player"
  | actionbar => "Show text in the player's action bar"
  | title => "Show a title and optional subtitle on the player's screen"
  | sound => "Play a sound to the player"
  | command => "Run a command as the player"
  | console => "Run a command as the console"
  | economy => "Change or check the player's balance"
  | gamemode => "Change the player's game mode"
  | inventory => "Give items to or clear the player's inventory"

/-- Raw actions that show how the type is used. -/
def examples : ValueAction → List String
  | message =>
      [ "message:&aWelcome, \x7bplayer\x7d!",
        "message:[ \"Line one\", \"Line two\" ]",
        "message \x7b - \"First\" - \"Second\" \x7d" ]
  | broadcast => ["broadcast:&e\x7bplayer\x7d found a diamond!"]
  | actionbar => ["actionbar:&7Balance: \x7bbalance\x7d"]
  | title =>
      [ "title:&6Welcome",
        "title:&6Welcome:&7to the server",
        "title:&6Level up!:&7Now level \x7blevel\x7d:10:70:20" ]
  | sound =>
      [ "sound:ui.button.click",
        "sound:entity.player.levelup:0.5:1.2",
        "sound \x7b - \"ui.click:0.5:1.2\" - \"block.note:1.0:0.8\" \x7d" ]
  | command => ["command:/spawn", "command:warp shop"]
  | console =>
      [ "console:say \x7bplayer\x7d joined the arena",
        "console:[ \"give \x7bplayer\x7d bread 3\", \"effect give \x7bplayer\x7d speed 10\" ]" ]
  | economy =>
      ["economy:add:50", "economy:remove:\x7bprice\x7d", "economy:set:0", "economy:check"]
  | gamemode => ["gamemode:creative", "gamemode:survival", "gamemode:3"]
  | inventory =>
      [ "inventory:give:diamond:5",
        "inventory:give:minecraft:golden_apple",
        "inventory:clear",
        "inventory:clear:dirt" ]

/-- A command without the blanks around it and the slashes in front. -/
def bareCommand (value : List Char) : List Char :=
  trimStart ((trim value).dropWhile (· == '/'))

/-- Whether a value has the form that the action needs. -/
def isValid (action : ValueAction) (value : String) : Bool :=
  let text := value.toList
  match action with
  | message | broadcast | actionbar => !isBlankText text
  | title => (Title.read? text).isSome
  | sound => (Sound.read? text).isSome
  | command | console => !(bareCommand text).isEmpty
  | economy => (EconomyOp.read? text).isSome
  | gamemode => (GameMode.read? text).isSome
  | inventory => (InventoryOp.read? text).isSome

/-- What an attempt at an action gives: a result or an error, and the backend after it. -/
abbrev Effect := Outcome × Backend

/-- A service call whose refusal makes the action fail. -/
def perform {α : Type} (type : String) (answer : Backend.Answer α)
    (result : α → ActionResult) : Effect :=
  match answer with
  | (.ok value, b) => (.ok (result value), b)
  | (.error error, b) => (.error (.ofService type error), b)

/-- A console command, and another form of it that is tried when the first is refused. -/
def performConsole (type command : String) (retry : Option String) (result : ActionResult)
    (b : Backend) : Effect :=
  match b.runConsole command, retry with
  | (.error _, after), some fallback => perform type (after.runConsole fallback) fun _ => result
  | answer, _ => perform type answer fun _ => result

/-- Changes or checks a balance through the service for balances. -/
def runEconomyService (actor : Actor) (b : Backend) : EconomyOp → Effect
  | .add amount => perform "economy" (b.deposit actor amount) fun balance =>
      (report MessageKey.economyAdded balance).putText "amount" (Decimal.formatAmount amount)
  | .remove amount => perform "economy" (b.withdraw actor amount) fun balance =>
      (report MessageKey.economyRemoved balance).putText "amount" (Decimal.formatAmount amount)
  | .set amount => perform "economy" (b.setBalance actor amount) fun balance =>
      (report MessageKey.economySet balance).putText "amount" (Decimal.formatAmount amount)
  | .check => (.ok (report MessageKey.economyBalance (b.balance actor.name)), b)
where
  /-- The report of a balance. -/
  report (key : String) (balance : Float) : ActionResult :=
    ((ActionResult.success key).putText "player" actor.name).putText "balance"
      (Decimal.formatAmount balance)

/-- Changes a balance through a console command. -/
def runEconomyCommand (actor : Actor) (b : Backend) : EconomyOp → Effect
  | .add amount => run "give" amount MessageKey.economyAdded
  | .remove amount => run "take" amount MessageKey.economyRemoved
  | .set amount => run "set" amount MessageKey.economySet
  | .check => (.error (.execution "economy" "balance checks need an economy service"), b)
where
  /-- The command for a verb and an amount. -/
  run (verb : String) (amount : Float) (key : String) : Effect :=
    let shown := Decimal.formatAmount amount
    let command := "eco " ++ verb ++ " " ++ actor.name ++ " " ++ shown
    performConsole "economy" command none
      (((ActionResult.success key).putText "player" actor.name).putText "amount" shown) b

/-- Gives items. A name without namespace is tried again with one. -/
def runGive (actor : Actor) (item : String) (amount : Nat) (b : Backend) : Effect :=
  let command := fun name : String => "give " ++ actor.name ++ " " ++ name ++ " " ++ toString amount
  let retry := if item.toList.contains ':' then none else some (command ("minecraft:" ++ item))
  performConsole "inventory" (command item) retry
    ((((ActionResult.success MessageKey.inventoryGiven).putText "player" actor.name).putText "item"
      item).putCount "amount" amount) b

/-- Takes items away: all of them, or those of one kind, or so many of that kind. -/
def runClear (actor : Actor) (item : Option String) (amount : Option Nat) (b : Backend) : Effect :=
  let cleared :=
    (ActionResult.success MessageKey.inventoryCleared).putText "player" actor.name
  match item with
  | none => performConsole "inventory" ("clear " ++ actor.name) none cleared b
  | some item =>
      let command := "clear " ++ actor.name ++ " " ++ item
      let command := match amount with
        | some amount => command ++ " " ++ toString amount
        | none => command
      performConsole "inventory" command none (cleared.putText "item" item) b

/-- Changes the actor's game mode, by name and, if that is refused, by number. -/
def runGameMode (actor : Actor) (mode : GameMode) (b : Backend) : Effect :=
  let command := fun word : String => "gamemode " ++ word ++ " " ++ actor.name
  performConsole "gamemode" (command mode.name) (some (command (toString mode.id)))
    (((ActionResult.success MessageKey.gamemodeChanged).putText "mode" mode.name).putText "player"
      actor.name) b

/-- What an action says of a value that it cannot read. -/
def invalidReason (action : ValueAction) (value : String) : String :=
  match action with
  | title => "title and subtitle are empty"
  | sound => "invalid sound '" ++ value ++ "'"
  | gamemode => "unknown game mode '" ++ value ++ "'"
  | economy => "invalid economy operation '" ++ value ++ "'"
  | inventory => "invalid inventory operation '" ++ value ++ "'"
  | _ => "invalid value '" ++ value ++ "'"

/-- Reads a value, or fails because it cannot be read. -/
def reading {α : Type} (action : ValueAction) (value : String) (read? : List Char → Option α)
    (b : Backend) (run : α → Effect) : Effect :=
  match read? value.toList with
  | some parsed => run parsed
  | none => (.error (.validation action.typeName (action.invalidReason value)), b)

/-- Attempts an action on one value. -/
def attempt (action : ValueAction) (actor : Actor) (value : String) (b : Backend) : Effect :=
  match action with
  | message => perform "message" (b.sendMessage actor value) fun _ =>
      (ActionResult.success MessageKey.messageSent).putText "text" value
  | broadcast => perform "broadcast" (b.broadcast value) fun _ =>
      (ActionResult.success MessageKey.broadcastSent).putText "text" value
  | actionbar => perform "actionbar" (b.sendActionbar actor value) fun _ =>
      (ActionResult.success MessageKey.actionbarSent).putText "text" value
  | title => action.reading value Title.read? b fun t =>
      perform "title" (b.sendTitle actor t) fun _ =>
        ((ActionResult.success MessageKey.titleSent).putText "title" t.title).putText "subtitle"
          t.subtitle
  | sound => action.reading value Sound.read? b fun s =>
      perform "sound" (b.playSound actor s) fun _ =>
        (((ActionResult.success MessageKey.soundPlayed).putText "sound" s.name).put "volume"
          (.float s.volume.toFloat)).put "pitch" (.float s.pitch.toFloat)
  | command =>
      let command := String.ofList (bareCommand value.toList)
      perform "command" (b.runAs actor command) fun _ =>
        (ActionResult.success MessageKey.commandExecuted).putText "command" command
  | console =>
      let command := String.ofList (bareCommand value.toList)
      perform "console" (b.runConsole command) fun _ =>
        (ActionResult.success MessageKey.consoleExecuted).putText "command" command
  | economy => action.reading value EconomyOp.read? b fun op =>
      if b.hasEconomy then runEconomyService actor b op else runEconomyCommand actor b op
  | gamemode => action.reading value GameMode.read? b fun mode => runGameMode actor mode b
  | inventory => action.reading value InventoryOp.read? b fun op =>
      match op with
      | .give item amount => runGive actor item amount b
      | .clear item amount => runClear actor item amount b

/-- Runs an action on one value: a result and the backend after it, or an error. -/
def run (action : ValueAction) (actor : Actor) (value : String) (b : Backend) :
    Except ActionError (ActionResult × Backend) :=
  let (outcome, after) := action.attempt actor value b
  outcome.map fun result => (result, after)

end ValueAction

end MenuActions
