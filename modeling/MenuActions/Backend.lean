import MenuActions.ActionError
import MenuActions.Context
import MenuActions.Text.Split
import MenuActions.Value.Sound
import MenuActions.Value.Title

/-!
# Backends

The services behind the actions: commands, messages, titles, sounds and balances. Every service call
that is accepted is recorded, in order; a call that is refused leaves calls and balances as they were.
-/

namespace MenuActions

/-- A service call that was accepted. A payment has the balance after it. -/
inductive Call
  | console (command : String)
  | runAs (actor command : String)
  | message (actor text : String)
  | broadcast (text : String)
  | actionbar (actor text : String)
  | title (actor : String) (title : Title)
  | sound (actor : String) (sound : Sound)
  | deposit (actor : String) (amount total : Float)
  | withdraw (actor : String) (amount total : Float)
  | setBalance (actor : String) (amount : Float)

/-- The state of the services and what they were asked to do so far. -/
structure Backend where
  /-- The accepted calls, oldest first. -/
  calls : List Call
  /-- Commands that begin with one of these are refused. -/
  refusedCommands : List String
  /-- Texts that contain one of these are refused. -/
  refusedTexts : List String
  permissions : List String
  placeholders : Table String
  balances : Table Float
  /-- Whether there is a service for balances; without one, console commands change them. -/
  hasEconomy : Bool

namespace Backend

/-- The backend that refuses nothing and knows nothing. -/
def empty : Backend :=
  ⟨[], [], [], [], [], [], true⟩

/-- What a service call gives: a value or a refusal, and the backend after it. -/
abbrev Answer (α : Type) := Except ServiceError α × Backend

/-- The backend with one more recorded call. -/
def record (b : Backend) (call : Call) : Backend :=
  { b with calls := b.calls ++ [call] }

/-- The balance of a name; nobody starts with debts or money. -/
def balance (b : Backend) (name : String) : Float :=
  (b.balances.get? name).getD 0.0

/-- Records a call unless its command is refused. -/
def accept (b : Backend) (command : String) (call : Call) : Answer Unit :=
  if b.refusedCommands.any fun start => start.toList.isPrefixOf command.toList then
    (.error (.commandFailed command), b)
  else (.ok (), b.record call)

/-- Records a call unless its text is refused. -/
def deliver (b : Backend) (text : String) (call : Call) : Answer Unit :=
  if b.refusedTexts.any fun part => Text.hasPart part.toList text.toList then
    (.error (.rejected text), b)
  else (.ok (), b.record call)

/-- Runs a command as the console. -/
def runConsole (command : String) (b : Backend) : Answer Unit :=
  b.accept command (.console command)

/-- Runs a command as the actor. -/
def runAs (actor : Actor) (command : String) (b : Backend) : Answer Unit :=
  b.accept command (.runAs actor.name command)

/-- Sends a chat message to the actor. -/
def sendMessage (actor : Actor) (text : String) (b : Backend) : Answer Unit :=
  b.deliver text (.message actor.name text)

/-- Sends a chat message to everyone. -/
def broadcast (text : String) (b : Backend) : Answer Unit :=
  b.deliver text (.broadcast text)

/-- Shows a text in the actor's action bar. -/
def sendActionbar (actor : Actor) (text : String) (b : Backend) : Answer Unit :=
  b.deliver text (.actionbar actor.name text)

/-- Shows a title; only its main line can be refused. -/
def sendTitle (actor : Actor) (title : Title) (b : Backend) : Answer Unit :=
  b.deliver title.title (.title actor.name title)

/-- Plays a sound. -/
def playSound (actor : Actor) (sound : Sound) (b : Backend) : Answer Unit :=
  (.ok (), b.record (.sound actor.name sound))

/-- Adds to the actor's balance and gives the new balance. -/
def deposit (actor : Actor) (amount : Float) (b : Backend) : Answer Float :=
  let total := b.balance actor.name + amount
  let paid := { b with balances := b.balances.put actor.name total }
  (.ok total, paid.record (.deposit actor.name amount total))

/-- The backend in which a name has an account; a new account holds nothing. -/
def openAccount (b : Backend) (name : String) : Backend :=
  { b with balances := b.balances.put name (b.balance name) }

/-- Takes from the actor's balance, which must be large enough, and gives the new balance. The account
is opened first, so it is there also when it does not hold enough. -/
def withdraw (actor : Actor) (amount : Float) (b : Backend) : Answer Float :=
  let opened := b.openAccount actor.name
  let held := opened.balance actor.name
  if held < amount then (.error (.insufficientFunds held amount), opened)
  else
    let total := held - amount
    let paid := { opened with balances := opened.balances.put actor.name total }
    (.ok total, paid.record (.withdraw actor.name amount total))

/-- Sets the actor's balance. -/
def setBalance (actor : Actor) (amount : Float) (b : Backend) : Answer Float :=
  let paid := { b with balances := b.balances.put actor.name amount }
  (.ok amount, paid.record (.setBalance actor.name amount))

/-- Whether a permission is granted. -/
def hasPermission (b : Backend) (node : String) : Bool :=
  b.permissions.contains node

/-- The commands run as the console. -/
def consoleCommands (b : Backend) : List String :=
  b.calls.filterMap fun
    | .console command => some command
    | _ => none

/-- The texts sent as chat messages. -/
def messages (b : Backend) : List String :=
  b.calls.filterMap fun
    | .message _ text => some text
    | _ => none

end Backend

end MenuActions
