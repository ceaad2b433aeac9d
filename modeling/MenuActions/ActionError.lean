import MenuActions.Decimal.Layout
import MenuActions.Grammar.ParseError
import MenuActions.MessageKey

/-!
# Errors

Why a service refuses a call, and why an action does not succeed.
-/

namespace MenuActions

/-- Why a service refuses a call. -/
inductive ServiceError
  | unavailable (what : String)
  | commandFailed (command : String)
  | rejected (text : String)
  | insufficientFunds (balance needed : Float)
  | callFailed (what : String)

/-- The error in words. -/
def ServiceError.message : ServiceError → String
  | .unavailable what => "service unavailable: " ++ what
  | .commandFailed command => "command failed: " ++ command
  | .rejected text => "operation rejected: " ++ text
  | .insufficientFunds balance needed =>
      "insufficient funds: balance " ++ Decimal.Layout.plain.write balance ++ ", needed " ++
        Decimal.Layout.plain.write needed
  | .callFailed what => "service call failed: " ++ what

/-- Why an action does not succeed. -/
inductive ActionError
  /-- The data is malformed; nothing ran. -/
  | validation (type reason : String)
  /-- What the action asked for failed. -/
  | execution (type message : String)
  /-- A pause between values was interrupted. -/
  | interruptedPacing (completed total : Nat)
  /-- No handler goes by the type's name. -/
  | unknownType (type : String)
  /-- The action is nested deeper than allowed. -/
  | depthExceeded (depth limit : Nat)
  /-- A pool takes no more work. -/
  | poolShutdown (pool : String)
  /-- A handler gave up without an answer, or its task was lost. -/
  | panicked (type message : String)
  deriving DecidableEq, Repr

namespace ActionError

/-- The error in words. -/
def message : ActionError → String
  | validation type reason => "invalid " ++ type ++ " action: " ++ reason
  | execution type message => type ++ " action failed: " ++ message
  | interruptedPacing completed total =>
      "interrupted after " ++ toString completed ++ " of " ++ toString total ++ " items"
  | unknownType type => "unknown action type: " ++ type
  | depthExceeded depth limit =>
      "nesting depth " ++ toString depth ++ " exceeds limit of " ++ toString limit
  | poolShutdown pool => pool ++ " worker pool is shut down"
  | panicked type message => type ++ " handler aborted: " ++ message

/-- The key of the message that describes the error. -/
def messageKey : ActionError → String
  | validation .. => MessageKey.validation
  | execution .. => MessageKey.execution
  | interruptedPacing .. => MessageKey.interrupted
  | unknownType _ => MessageKey.unknownType
  | depthExceeded .. => MessageKey.depth
  | poolShutdown _ => MessageKey.poolShutdown
  | panicked .. => MessageKey.aborted

/-- Whether the action was turned down before anything ran. -/
def isValidation : ActionError → Bool
  | validation .. => true
  | unknownType _ => true
  | _ => false

/-- A refused call as the failure of an action. -/
def ofService (type : String) (error : ServiceError) : ActionError :=
  execution type error.message

/-- Malformed text as the failure of an action. -/
def ofParse (type : String) (error : Grammar.ParseError) : ActionError :=
  validation type error.message

end ActionError

end MenuActions
