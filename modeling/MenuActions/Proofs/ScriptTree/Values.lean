import MenuActions.Proofs.ActionResult.Aggregate
import MenuActions.Proofs.Schedule.Straight
import MenuActions.Proofs.ScriptTree.Basic

/-!
# Running the values of a leaf

Without pauses, the values of a value action run straight, one after the other, and what they do to the
backend and the statuses that they give are those of `ScriptTree.runValues`.
-/

namespace MenuActions

open Schedule

namespace Executor

/-- Several outcomes are combined as their statuses are. -/
theorem status_combine (type : String) (outcomes : List Outcome) :
    (combine type outcomes).status =
      ScriptTree.combine (outcomes.map fun outcome => outcome.result.status) := by
  have hmany : (ActionResult.aggregate type (outcomes.map Outcome.result) outcomes.length).status =
      Status.ofCounts ((outcomes.map fun outcome => outcome.result.status).countP (· != .failure))
        (outcomes.map fun outcome => outcome.result.status).length := by
    rw [ActionResult.status_aggregate, List.map_map, List.length_map]
    rfl
  cases outcomes with
  | nil => exact hmany
  | cons first rest =>
      cases rest with
      | nil => rfl
      | cons second rest => exact hmany

end Executor

theorem ScriptTree.length_runValues (action : ValueAction) (actor : Actor) (values : List String)
    (b : Backend) : (runValues action actor values b).1.length = values.length := by
  induction values generalizing b with
  | nil => rfl
  | cons value values ih =>
      rw [runValues, List.length_cons, List.length_cons, ih]

namespace Executor

/-! ## Values -/

variable (action : ValueAction) (actor : Actor)

/-- A value runs straight, whether it is in the right form or not and whether its service accepts it
or not. -/
theorem straight_runValue (value : String) (state : Runtime) :
    ∃ outcome : Outcome,
      (runValue action actor value).Straight state outcome
        { state with backend := (ScriptTree.runValue action actor value state.backend).2 } ∧
      outcome.result.status = (ScriptTree.runValue action actor value state.backend).1 := by
  unfold runValue ScriptTree.runValue
  by_cases hvalid : action.isValid value = true
  · rw [if_pos hvalid, if_pos hvalid]
    exact ⟨(action.attempt actor value state.backend).1, .act (fun _ => rfl) (.done _ _), rfl⟩
  · rw [if_neg hvalid, if_neg hvalid]
    exact ⟨_, .done _ _, ActionResult.status_ofError _⟩

/-- The values that are left run straight and add their results to those before them. -/
theorem straight_runFrom (type : String) (total : Nat) (values : List String)
    (results : List ActionResult) (state : Runtime) :
    ∃ more : List ActionResult,
      (Sequence.runFrom type 0 total (runValue action actor) results values).Straight state
        (.ok (ActionResult.aggregate type (results ++ more) total))
        { state with backend := (ScriptTree.runValues action actor values state.backend).2 } ∧
      more.map ActionResult.status =
        (ScriptTree.runValues action actor values state.backend).1 := by
  -- The results so far and the state change with every value.
  induction values generalizing results state with
  | nil =>
      refine ⟨[], ?_, rfl⟩
      rw [List.append_nil]
      exact .done _ _
  | cons value values ih =>
      obtain ⟨outcome, hvalue, hstatus⟩ := straight_runValue action actor value state
      obtain ⟨more, hrest, hmore⟩ := ih (results ++ [outcome.result])
        { state with backend := (ScriptTree.runValue action actor value state.backend).2 }
      rw [List.append_assoc] at hrest
      refine ⟨outcome.result :: more, ?_, ?_⟩
      · rw [Sequence.runFrom]
        simp only [beq_self_eq_true, Bool.or_true, if_true]
        exact hvalue.bind hrest
      · rw [List.map_cons, hstatus, hmore]
        rfl

/-- Values without pauses between them run straight. -/
theorem straight_run {values : List String} (type : String) (hne : values ≠ []) (state : Runtime) :
    ∃ outcome : Outcome,
      (Sequence.run type 0 values (runValue action actor)).Straight state outcome
        { state with backend := (ScriptTree.runValues action actor values state.backend).2 } ∧
      outcome.result.status =
        ScriptTree.combine (ScriptTree.runValues action actor values state.backend).1 := by
  cases values with
  | nil => exact absurd rfl hne
  | cons value rest =>
      cases rest with
      | nil => exact straight_runValue action actor value state
      | cons second rest =>
          obtain ⟨more, hrun, hmore⟩ := straight_runFrom action actor type
            (value :: second :: rest).length (value :: second :: rest) [] state
          refine ⟨_, hrun, ?_⟩
          show (ActionResult.aggregate type ([] ++ more) _).status = _
          rw [List.nil_append, ActionResult.status_aggregate, hmore,
            ← ScriptTree.length_runValues action actor _ state.backend]
          rfl

end Executor

end MenuActions
