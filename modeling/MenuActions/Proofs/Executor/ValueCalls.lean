import MenuActions.Proofs.ActionResult.Aggregate
import MenuActions.Proofs.Executor.DispatchTells

/-!
# The calls of a value list

What a value list has called is what has come of its values: one call for each that succeeded, in their
order, and none for those that failed or that only asked for a balance.  When the list has ended, its
details say which values succeeded.

`matched_runValues` says so wherever a value list has come, so also of one that is still under way.  What
is dispatched consists of such lists and of deeds that call nothing (`Narrative`).
-/

namespace MenuActions

open Schedule

/-- The calls that a deed has made. -/
def Schedule.Deed.calls : Deed Runtime PoolName Outcome → List Call
  | .changes before after => after.backend.calls.drop before.backend.calls.length
  | .starts _ => []

/-- The calls that some deeds have made. -/
def Schedule.callsOf (trail : List (Deed Runtime PoolName Outcome)) : List Call :=
  trail.flatMap Deed.calls

/-- The calls that are booked by a change are those that it has made. -/
theorem Schedule.Deed.calls_changes {before after : Runtime} {calls : List Call}
    (h : before.backend.Books calls after.backend) : (changes before after).calls = calls := by
  rw [Deed.calls, h.recorded, List.drop_left]

namespace ValueRun

variable {action : ValueAction} {actor : Actor} {run : ValueRun}

/-- How many calls belong to what has come of a value: one if it succeeded, unless it only asked for a
balance. -/
def due (action : ValueAction) (run : ValueRun) : Nat :=
  if run.succeeded && !action.asksBalance run.value then 1 else 0

theorem Genuine.length_callsOf (h : run.Genuine action actor) :
    (callsOf run.trail).length = run.due action := by
  cases h with
  | tried value state _ =>
      obtain ⟨calls, haccepts, hlength⟩ :=
        (action.attempted_attempt actor value state.backend).accepts
      rw [callsOf, List.flatMap_singleton, Deed.calls_changes haccepts.toBooks, hlength]
      rfl
  | turnedDown value _ => rfl

end ValueRun

namespace Executor

variable {learns : Bool → Prop} {action : ValueAction} {actor : Actor} {values : List String}
  {runs : List ValueRun} {trail : List (Deed Runtime PoolName Outcome)} {q : ActionProcess}

/-- What a value list has called matches what has come of its values.  Of the values a part was run, in
order; each has the calls that belong to what has come of it, and these are all the calls.  When the list
has ended, what has come of a single value is its outcome, and that of several stands in its details. -/
structure Matched (action : ValueAction) (actor : Actor) (values : List String) (runs : List ValueRun)
    (trail : List (Deed Runtime PoolName Outcome)) (q : ActionProcess) : Prop where
  genuine : ∀ run ∈ runs, run.Genuine action actor
  inOrder : runs.map ValueRun.value <+: values
  calls : callsOf trail = runs.flatMap fun run => callsOf run.trail
  due : ∀ run ∈ runs, (callsOf run.trail).length = run.due action
  single : ∀ outcome, q = .done outcome → values.length = 1 →
    runs.map ValueRun.outcome = [outcome]
  several : ∀ outcome, q = .done outcome → 2 ≤ values.length →
    outcome.result.Reports (ValueRun.results runs) values.length

/-- The details of folded values say which of those that were run succeeded. -/
theorem Folds.reports {type : String} {total : Nat} {before : List ActionResult} {outcome : Outcome}
    (h : Folds learns type total before values runs outcome) :
    outcome.result.Reports (before ++ ValueRun.results runs) total := by
  cases h with
  | all _ => exact ActionResult.reports_aggregate _ _ _
  | cut _ _ =>
      exact ((ActionResult.reports_aggregate _ _ _).put _ _ (by decide)).withCause _

/-- Wherever a value list has come, what it has called matches what has come of its values. -/
theorem Through.matched (h : Through action actor (Closes learns action values runs) values runs trail q) :
    Matched action actor values runs trail q := by
  refine ⟨h.genuine, h.inOrder, ?_, fun run hrun => (h.genuine run hrun).length_callsOf, ?_, ?_⟩
  · rw [h.deeds, callsOf, List.flatMap_assoc]
    rfl
  · intro outcome hq hlength
    cases h.ended outcome hq with
    | empty hempty _ => exact absurd hlength (by simp [hempty])
    | single run _ hruns => rw [hruns]; rfl
    | several htwo _ => omega
  · intro outcome hq hlength
    cases h.ended outcome hq with
    | empty hempty _ => exact absurd hlength (by simp [hempty])
    | single run hvalue _ => exact absurd hlength (by simp [hvalue])
    | several _ hfolds =>
        have hreports := hfolds.reports
        rwa [List.nil_append] at hreports

/-- Data that cannot be read calls nothing, and otherwise the calls match the values. -/
theorem matched_runValues {pacing : Nat} {data : String}
    (h : (runValues action pacing actor data).Course learns trail q) :
    (∃ error, Handler.readTexts action.typeName data = .error error ∧ trail = []) ∨
      ∃ values runs, Handler.readTexts action.typeName data = .ok values ∧
        Matched action actor values runs trail q := by
  rcases course_runValues h with ⟨error, hread, hnone, -⟩ | ⟨values, runs, hread, hthrough⟩
  · exact Or.inl ⟨error, hread, hnone⟩
  · exact Or.inr ⟨values, runs, hread, hthrough.matched⟩

/-! ## What is dispatched -/

/-- What a process has done: value lists, one after the other, and between them starts of tasks and changes
that leave the services as they are.  Only the last list may still be under way, unless all have ended. -/
inductive Narrative (ended : Bool) : List (Deed Runtime PoolName Outcome) → Prop
  | nil : Narrative ended []
  | aside {before after : Runtime} {rest : List (Deed Runtime PoolName Outcome)} :
      after.backend = before.backend → Narrative ended rest →
      Narrative ended (.changes before after :: rest)
  | starts (body : ActionProcess) {rest : List (Deed Runtime PoolName Outcome)} :
      Narrative ended rest → Narrative ended (.starts body :: rest)
  | values {action : ValueAction} {pacing : Nat} {actor : Actor} {data : String} {outcome : Outcome}
      {list rest : List (Deed Runtime PoolName Outcome)} :
      (runValues action pacing actor data).Course (fun _ => True) list (.done outcome) →
      Narrative ended rest → Narrative ended (list ++ rest)
  | underway {action : ValueAction} {pacing : Nat} {actor : Actor} {data : String} {q : ActionProcess}
      {list : List (Deed Runtime PoolName Outcome)} : ended = false →
      (runValues action pacing actor data).Course (fun _ => True) list q → Narrative ended list

theorem Narrative.append {ended : Bool} {trail more : List (Deed Runtime PoolName Outcome)}
    (h : Narrative true trail) (h' : Narrative ended more) : Narrative ended (trail ++ more) := by
  induction h with
  | nil => exact h'
  | aside hbackend _ ih => exact .aside hbackend ih
  | starts body _ ih => exact .starts body ih
  | values hlist _ ih =>
      rw [List.append_assoc]
      exact .values hlist ih
  | underway hended _ => exact absurd hended (by decide)

/-- The story that what is dispatched consists of value lists and of what is beside them. -/
def narrative : Story Runtime PoolName Outcome where
  part := Narrative false
  whole := Narrative true
  part_of_whole h := by
    have hmore := h.append (.nil : Narrative false [])
    rwa [List.append_nil] at hmore
  nil := .nil
  starts body := .starts body .nil
  append_part := .append
  append_whole := .append

theorem admits_narrative : Admits narrative := by
  refine ⟨fun before after hbackend _ => .aside hbackend .nil, fun action pacing actor data => ?_⟩
  refine .intro (fun hcourse => .underway rfl hcourse) (fun hcourse => ?_) fun hcourse hbody => ?_
  · have hlist : Narrative true (_ ++ []) := .values hcourse .nil
    rwa [List.append_nil] at hlist
  · obtain ⟨_, _, hdeed⟩ := mem_trail_runValues hcourse hbody
    exact absurd hdeed (by simp)

end Executor

end MenuActions
