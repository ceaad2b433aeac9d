import MenuActions.ActionResult
import MenuActions.Schedule.Process

/-!
# Values in sequence

Several values are run one after the other with a pause in between, whatever becomes of each, and
their outcomes are folded into one result. An interrupt during a pause ends the sequence early.
-/

namespace MenuActions.Sequence

open Schedule

variable {W ι α : Type}

/-- The result of a sequence that was interrupted after the values whose results are given. -/
def cutShort (type : String) (results : List ActionResult) (total : Nat) : ActionResult :=
  ((ActionResult.aggregate type results total).put "interrupted" (.bool true)).withCause
    (.interruptedPacing results.length total)

/-- Runs the values that are left, given the results of those before them. -/
def runFrom (type : String) (pacing total : Nat) (item : α → Process W ι Outcome)
    (results : List ActionResult) : List α → Process W ι Outcome
  | [] => .done (.ok (ActionResult.aggregate type results total))
  | value :: values =>
      let body := (item value).bind fun outcome =>
        runFrom type pacing total item (results ++ [outcome.result]) values
      if results.isEmpty || pacing == 0 then body
      else
        .pause pacing fun interrupted =>
          if interrupted then .done (.ok (cutShort type results total)) else body

/-- Runs values in order. A single value gives its own outcome, and no value at all is an error. -/
def run (type : String) (pacing : Nat) (values : List α)
    (item : α → Process W ι Outcome) : Process W ι Outcome :=
  match values with
  | [] => .done (.error (.validation type "no values given"))
  | [value] => item value
  | values => runFrom type pacing values.length item [] values

end MenuActions.Sequence
