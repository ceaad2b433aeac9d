/-!
# Message keys

The keys under which the engine's messages are kept in a catalog, and the English text of each. No key
is without a text, and no text is under another key (`map_fst_english`).
-/

namespace MenuActions.MessageKey

def unknownType : String := "action.unknown_type"
def validation : String := "action.error.validation"
def execution : String := "action.error.execution"
def interrupted : String := "action.error.interrupted"
def depth : String := "action.error.depth"
def poolShutdown : String := "action.error.pool_shutdown"
def aborted : String := "action.error.aborted"
def definitionEmpty : String := "action.definition.empty"
def compositeSuccess : String := "action.composite.success"
def compositePartial : String := "action.composite.partial_success"
def compositeFailure : String := "action.composite.failure"
def messageSent : String := "action.message.sent"
def broadcastSent : String := "action.broadcast.sent"
def actionbarSent : String := "action.actionbar.sent"
def titleSent : String := "action.title.sent"
def soundPlayed : String := "action.sound.played"
def commandExecuted : String := "action.command.executed"
def consoleExecuted : String := "action.console.executed"
def economyAdded : String := "action.economy.added"
def economyRemoved : String := "action.economy.removed"
def economySet : String := "action.economy.set"
def economyBalance : String := "action.economy.balance"
def gamemodeChanged : String := "action.gamemode.changed"
def inventoryGiven : String := "action.inventory.given"
def inventoryCleared : String := "action.inventory.cleared"
def conditionalNoBranch : String := "action.conditional.no_branch"
def randomEmpty : String := "action.random.empty"
def delayScheduled : String := "action.delay.scheduled"
def delayCompleted : String := "action.delay.completed"

/-- Every key of the engine. -/
def all : List String :=
  [ unknownType, validation, execution, interrupted, depth, poolShutdown, aborted, definitionEmpty,
    compositeSuccess, compositePartial, compositeFailure, messageSent, broadcastSent,
    actionbarSent, titleSent, soundPlayed, commandExecuted, consoleExecuted, economyAdded,
    economyRemoved, economySet, economyBalance, gamemodeChanged, inventoryGiven, inventoryCleared,
    conditionalNoBranch, randomEmpty, delayScheduled, delayCompleted ]

/-- The English text of every key. Tokens stand for a result's replacements. -/
def english : List (String × String) :=
  [ (unknownType, "Unknown action type '\x7btype\x7d'"),
    (validation, "Invalid action: \x7berror\x7d"),
    (execution, "Action failed: \x7berror\x7d"),
    (interrupted, "Interrupted after \x7bcompleted\x7d of \x7btotal\x7d actions"),
    (depth, "Actions nested too deeply (\x7bdepth\x7d > \x7blimit\x7d)"),
    (poolShutdown, "The \x7bpool\x7d scheduler is shutting down"),
    (aborted, "Action aborted: \x7berror\x7d"),
    (definitionEmpty, "Nothing to run"),
    (compositeSuccess, "All \x7btotal_count\x7d actions completed"),
    (compositePartial, "\x7bsuccess_count\x7d of \x7btotal_count\x7d actions completed"),
    (compositeFailure, "None of \x7btotal_count\x7d actions completed"),
    (messageSent, "Message sent"),
    (broadcastSent, "Broadcast sent"),
    (actionbarSent, "Action bar sent"),
    (titleSent, "Title shown"),
    (soundPlayed, "Played \x7bsound\x7d"),
    (commandExecuted, "Ran /\x7bcommand\x7d"),
    (consoleExecuted, "Console ran \x7bcommand\x7d"),
    (economyAdded, "Added \x7bamount\x7d to \x7bplayer\x7d"),
    (economyRemoved, "Removed \x7bamount\x7d from \x7bplayer\x7d"),
    (economySet, "Set balance of \x7bplayer\x7d to \x7bamount\x7d"),
    (economyBalance, "\x7bplayer\x7d has \x7bbalance\x7d"),
    (gamemodeChanged, "Game mode set to \x7bmode\x7d"),
    (inventoryGiven, "Gave \x7bamount\x7d \x7bitem\x7d"),
    (inventoryCleared, "Inventory cleared"),
    (conditionalNoBranch, "Condition was \x7boutcome\x7d, nothing to run"),
    (randomEmpty, "No random action could be chosen"),
    (delayScheduled, "Scheduled in \x7bdelay_ms\x7d ms"),
    (delayCompleted, "Waited \x7bdelay_ms\x7d ms") ]

/-- The English texts are those of the engine's keys, in the same order. -/
theorem map_fst_english : english.map Prod.fst = all :=
  rfl

end MenuActions.MessageKey
