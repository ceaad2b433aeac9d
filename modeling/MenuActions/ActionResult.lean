import MenuActions.ActionError
import MenuActions.Json.Basic

/-!
# Results

What an action answers: whether anything succeeded, a status, the key of a message with the values for
its tokens, and the error behind a failure. Results of several actions are folded into one.

Every result begins with `ofStatus`, which takes the flag from the status, and nothing changes either
afterwards (`ActionResult.succeeded_eq`).
-/

namespace MenuActions

/-- How much of an action succeeded. -/
inductive Status
  | success
  | partialSuccess
  | failure
  deriving DecidableEq, Repr

/-- The status in words. -/
def Status.text : Status → String
  | .success => "SUCCESS"
  | .partialSuccess => "PARTIAL_SUCCESS"
  | .failure => "FAILURE"

/-- The status of `total` parts of which `succeeded` succeeded. No parts at all are a failure. -/
def Status.ofCounts (succeeded total : Nat) : Status :=
  if 0 < total ∧ succeeded = total then .success
  else if 0 < succeeded then .partialSuccess
  else .failure

/-- The answer of an action. -/
structure ActionResult where
  /-- Whether anything succeeded. -/
  succeeded : Bool
  status : Status
  message : String
  replacements : Table Json
  cause : Option ActionError
  succeeded_eq : succeeded = (status != .failure)

namespace ActionResult

/-- A result without replacements. The status says whether anything succeeded. -/
def ofStatus (status : Status) (message : String) : ActionResult :=
  ⟨status != .failure, status, message, [], none, rfl⟩

/-- A result counts as succeeded when its status is no failure. -/
theorem succeeded_iff (result : ActionResult) : result.succeeded = true ↔ result.status ≠ .failure := by
  rw [result.succeeded_eq, bne_iff_ne]

/-- A successful result. -/
def success (message : String) : ActionResult :=
  ofStatus .success message

/-- A failed result. -/
def failure (message : String) : ActionResult :=
  ofStatus .failure message

/-- The result with one more replacement. -/
def put (result : ActionResult) (name : String) (value : Json) : ActionResult :=
  { result with replacements := result.replacements.put name value }

/-- The result with a text as one more replacement. -/
def putText (result : ActionResult) (name value : String) : ActionResult :=
  result.put name (.str value)

/-- The result with a count as one more replacement. -/
def putCount (result : ActionResult) (name : String) (value : Nat) : ActionResult :=
  result.put name (.int value)

/-- The result with an error behind it. -/
def withCause (result : ActionResult) (error : ActionError) : ActionResult :=
  { result with cause := some error }

/-- The failure that describes an error. -/
def ofError (error : ActionError) : ActionResult :=
  let base := (failure error.messageKey).putText "error" error.message
  let described :=
    match error with
    | .validation type _ => base.putText "type" type
    | .execution type _ => base.putText "type" type
    | .panicked type _ => base.putText "type" type
    | .unknownType type => base.putText "type" type
    | .interruptedPacing completed total =>
        (base.putCount "completed" completed).putCount "total" total
    | .depthExceeded depth limit => (base.putCount "depth" depth).putCount "limit" limit
    | .poolShutdown pool => base.putText "pool" pool
  described.withCause error

/-- One line of the details of an aggregate. -/
def detail (index : Nat) (result : ActionResult) : Json :=
  let fields : Table Json :=
    [ ("index", .int index), ("success", .bool result.succeeded),
      ("status", .str result.status.text), ("message", .str result.message) ]
  .obj <|
    match result.replacements.get? "error" with
    | some error => fields.put "error" error
    | none => fields

/-- The details of an aggregate, counted from `index`. -/
def detailsFrom (index : Nat) : List ActionResult → List Json
  | [] => []
  | result :: results => result.detail index :: detailsFrom (index + 1) results

/-- The key of the message for an aggregate of some status. -/
def aggregateKey : Status → String
  | .success => MessageKey.compositeSuccess
  | .partialSuccess => MessageKey.compositePartial
  | .failure => MessageKey.compositeFailure

/-- The results of the parts of an action, as one result. Parts beyond the results that are there
count as not succeeded. -/
def aggregate (type : String) (results : List ActionResult) (total : Nat) : ActionResult :=
  let succeeded := results.countP ActionResult.succeeded
  let status := Status.ofCounts succeeded total
  ((((ofStatus status (aggregateKey status)).putText "type" type).putCount "success_count"
    succeeded).putCount "total_count" total).put "details" (.arr (detailsFrom 0 results))

end ActionResult

/-- What a handler answers before errors are made into results. -/
abbrev Outcome := Except ActionError ActionResult

/-- An outcome as a result. -/
def Outcome.result : Outcome → ActionResult
  | .ok result => result
  | .error error => .ofError error

end MenuActions
