import MenuActions.Executor
import MenuActions.Proofs.Schedule.Alike

/-!
# The record of dispatches is not seen

Actions make a note of every dispatch, and nothing that they do depends on these notes: on states
that differ in the record alone, an action does the same and has the same result, and the number that
it is noted under makes no difference either.

`alike_runHandler` says so of a handler when it holds of what the handler nests, and `alike_dispatch`
follows by induction on the levels that are left.
-/

namespace MenuActions

open Schedule

/-- Two states that differ in the record of dispatches at most. -/
def SameWorld (state other : Runtime) : Prop :=
  state.toWorld = other.toWorld

namespace Executor

theorem noteDispatch_toWorld {actor : Actor} {ctx : Context} (action : Action)
    (parent : Option Nat) (state : Runtime) :
    (noteDispatch actor action ctx parent state).toWorld = state.toWorld := by
  unfold noteDispatch
  split <;> rfl

theorem alike_runValue (action : ValueAction) (actor : Actor) (value : String) :
    (runValue action actor value).Alike SameWorld (runValue action actor value) := by
  unfold runValue
  split
  · refine .act ?_ ?_
    · rintro now ⟨world, record⟩ ⟨other, record'⟩ hsame
      obtain rfl : world = other := hsame
      rfl
    · rintro ⟨world, record⟩ ⟨other, record'⟩ hsame
      obtain rfl : world = other := hsame
      exact .done _
  · exact .done _

theorem alike_runFrom {α : Type} {item : α → ActionProcess}
    (hitem : ∀ value, (item value).Alike SameWorld (item value)) (type : String)
    (pacing total : Nat) (values : List α) (results : List ActionResult) :
    (Sequence.runFrom type pacing total item results values).Alike SameWorld
      (Sequence.runFrom type pacing total item results values) := by
  induction values generalizing results with
  | nil => exact .done _
  | cons value values ih =>
      have hbody := (hitem value).bind fun outcome => ih (results ++ [outcome.result])
      rw [Sequence.runFrom]
      split
      · exact hbody
      · refine .pause _ fun interrupted => ?_
        cases interrupted with
        | true => exact .done _
        | false => exact hbody

theorem alike_runValues (action : ValueAction) (pacing : Nat) (actor : Actor) (data : String) :
    (runValues action pacing actor data).Alike SameWorld (runValues action pacing actor data) := by
  have hitem := alike_runValue action actor
  unfold runValues
  split
  · exact .done _
  · unfold Sequence.run
    split
    · exact .done _
    · exact hitem _
    · exact alike_runFrom hitem _ _ _ _ _

section Nested

variable {nest nest' : String → ActionProcess}

/-- Alike nested actions one after the other, and an answer from their outcomes. -/
theorem alike_nested (hnest : ∀ raw, (nest raw).Alike SameWorld (nest' raw)) (raws : List String)
    (result : List Outcome → Outcome) :
    (Process.sequence (raws.map nest) fun outcomes => .done (result outcomes)).Alike SameWorld
      (Process.sequence (raws.map nest') fun outcomes => .done (result outcomes)) := by
  refine Process.Alike.sequence ?_ fun _ => .done _
  rw [List.forall₂_map_left_iff, List.forall₂_map_right_iff]
  exact List.forall₂_same.mpr fun raw _ => hnest raw

theorem alike_runConditional (hnest : ∀ raw, (nest raw).Alike SameWorld (nest' raw))
    (world : World) (actor : Actor) (ctx : Context) (data : String) :
    (runConditional nest world actor ctx data).Alike SameWorld
      (runConditional nest' world actor ctx data) := by
  unfold runConditional
  split
  · exact .done _
  · extract_lets outcome branch entries
    split
    · exact .done _
    · exact alike_nested hnest _ _

theorem alike_runRandom (config : Config) (hnest : ∀ raw, (nest raw).Alike SameWorld (nest' raw))
    (inPlace : Bool) (world : World) (data : String) :
    (runRandom config nest inPlace world data).Alike SameWorld
      (runRandom config nest' inPlace world data) := by
  unfold runRandom
  split
  · exact .done _
  · refine .act ?_ ?_
    · rintro now ⟨world, record⟩ ⟨other, record'⟩ hsame
      obtain rfl : world = other := hsame
      rfl
    · rintro ⟨world, record⟩ ⟨other, record'⟩ hsame
      obtain rfl : world = other := hsame
      dsimp only
      split
      · exact .done _
      · rename_i chosen _
        split
        · exact (hnest chosen.action).bind fun _ => .done _
        · refine .spawn _ (hnest chosen.action) fun task => ?_
          cases task with
          | none => exact .done _
          | some number =>
              refine .join _ fun answer => ?_
              cases answer with
              | none => exact .done _
              | some outcome => exact .done _

theorem alike_runDelay {later later' : String → ActionProcess}
    (hnest : ∀ raw, (nest raw).Alike SameWorld (nest' raw))
    (hlater : ∀ raw, (later raw).Alike SameWorld (later' raw)) (maxMs : Nat) (data : String) :
    (runDelay nest later maxMs data).Alike SameWorld (runDelay nest' later' maxMs data) := by
  unfold runDelay
  split
  · exact .done _
  · rename_i delay _
    dsimp only
    split
    · split
      · exact .done _
      · exact alike_nested hnest _ _
    · split
      · exact .done _
      · refine .spawn _ (.sleep _ (alike_nested hlater delay.chained _)) fun task => ?_
        cases task with
        | none => exact .done _
        | some number => exact .done _

theorem alike_runAdded (hnest : ∀ raw, (nest raw).Alike SameWorld (nest' raw)) (ctx : Context)
    (handler : AddedHandler) (data : String) :
    (runAdded nest ctx handler data).Alike SameWorld (runAdded nest' ctx handler data) := by
  unfold runAdded
  dsimp only
  split
  case h_9 => exact (hnest data).bind fun _ => .done _
  all_goals exact .done _

end Nested

/-- A handler does not see the record when what it nests does not. -/
theorem alike_runHandler (config : Config) {nest nest' : Bool → String → ActionProcess}
    (hnest : ∀ onRandom raw, (nest onRandom raw).Alike SameWorld (nest' onRandom raw))
    (onRandom : Bool) (world : World) (actor : Actor) (ctx : Context) (data : String)
    (handler : Handler) :
    (runHandler config nest onRandom world actor ctx data handler).Alike SameWorld
      (runHandler config nest' onRandom world actor ctx data handler) := by
  cases handler with
  | value action pacing => exact alike_runValues action pacing actor data
  | conditional => exact alike_runConditional (hnest onRandom) world actor ctx data
  | random => exact alike_runRandom config (hnest true) onRandom world data
  | delay maxMs => exact alike_runDelay (hnest onRandom) (hnest false) maxMs data
  | added handler => exact alike_runAdded (hnest onRandom) ctx handler data

/-- A dispatch does not see the record, nor the number of the dispatch that it is nested in. -/
theorem alike_dispatchWith (config : Config) {nest nest' : Nat → Bool → String → ActionProcess}
    (hnest : ∀ number number' onRandom raw,
      (nest number onRandom raw).Alike SameWorld (nest' number' onRandom raw))
    (parent parent' : Option Nat) (onRandom : Bool) (actor : Actor) (action : Action)
    (ctx : Context) :
    (dispatchWith config nest parent onRandom actor action ctx).Alike SameWorld
      (dispatchWith config nest' parent' onRandom actor action ctx) := by
  unfold dispatchWith
  refine .act ?_ ?_
  · intro now state other hsame
    unfold SameWorld
    rw [noteDispatch_toWorld, noteDispatch_toWorld]
    exact hsame
  · rintro ⟨world, record⟩ ⟨other, record'⟩ hsame
    obtain rfl : world = other := hsame
    dsimp only
    split
    · exact .done _
    · exact (alike_runHandler config (fun _ raw => hnest _ _ _ raw) onRandom world actor ctx _ _).bind
        fun _ => .done _

theorem alike_dispatch (config : Config) (levels : Nat) (parent parent' : Option Nat)
    (onRandom : Bool) (actor : Actor) (action : Action) (ctx : Context) :
    (dispatch config levels parent onRandom actor action ctx).Alike SameWorld
      (dispatch config levels parent' onRandom actor action ctx) := by
  induction levels generalizing parent parent' onRandom action ctx with
  | zero =>
      exact alike_dispatchWith config (fun _ _ _ _ => .done _) parent parent' onRandom actor action ctx
  | succ levels ih =>
      rw [dispatch, dispatch]
      refine alike_dispatchWith config (fun number number' onRandom raw => ?_) parent parent' onRandom
        actor action ctx
      exact ih (some number) (some number') onRandom (Action.read config.defaultType raw) ctx.nested

end Executor

end MenuActions
