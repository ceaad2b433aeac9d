import MenuActions.Proofs.Executor.ValueRuns

/-!
# Stories of a dispatch

What can be told of the value lists, and of the changes that are beside them, can be told of a whole
dispatch: handlers put together what they nest, and besides that they only make a note of a dispatch or
take a draw, and neither touches the services or the registry.

`tells_runHandler` says so of a handler when it holds of what the handler nests, and `tells_dispatch`
follows by induction on the levels that are left.  A value list starts no tasks, so what is said of every
change can be told when it holds of one attempt (`admits_every`).
-/

namespace MenuActions.Executor

open Schedule

/-- A story that can be told of every value list, and to which a change is nothing that leaves the backend
and the registry as they are. -/
structure Admits (story : Story Runtime PoolName Outcome) : Prop where
  aside : ∀ before after : Runtime, after.backend = before.backend →
    after.registry = before.registry → story.whole [.changes before after]
  values : ∀ action pacing actor data, (runValues action pacing actor data).Tells story

/-- The deeds of runs of values are attempts, and no task is among them. -/
theorem mem_flatMap_trail {action : ValueAction} {actor : Actor} {runs : List ValueRun}
    (hruns : ∀ run ∈ runs, run.Genuine action actor) {deed : Deed Runtime PoolName Outcome}
    (hdeed : deed ∈ runs.flatMap ValueRun.trail) :
    ∃ (value : String) (state : Runtime),
      deed = .changes state { state with backend := (action.attempt actor value state.backend).2 } := by
  obtain ⟨run, hrun, hmem⟩ := List.mem_flatMap.mp hdeed
  cases hruns run hrun with
  | tried value state _ => exact ⟨value, state, List.mem_singleton.mp hmem⟩
  | turnedDown value _ => exact absurd hmem List.not_mem_nil

/-- The deeds of a value list are attempts, and no task is among them. -/
theorem mem_trail_runValues {learns : Bool → Prop} {action : ValueAction} {pacing : Nat} {actor : Actor}
    {data : String} {trail : List (Deed Runtime PoolName Outcome)} {q : ActionProcess}
    (h : (runValues action pacing actor data).Course learns trail q)
    {deed : Deed Runtime PoolName Outcome} (hdeed : deed ∈ trail) :
    ∃ (value : String) (state : Runtime),
      deed = .changes state { state with backend := (action.attempt actor value state.backend).2 } := by
  rcases course_runValues h with ⟨_, -, rfl, -⟩ | ⟨values, runs, -, hthrough⟩
  · exact absurd hdeed List.not_mem_nil
  · exact mem_flatMap_trail hthrough.genuine (hthrough.deeds ▸ hdeed)

/-- What is true of attempts and of what is beside them is true of every change. -/
theorem admits_every {kind : Runtime → Runtime → Prop}
    (haside : ∀ before after : Runtime, after.backend = before.backend →
      after.registry = before.registry → kind before after)
    (hattempt : ∀ action actor value (state : Runtime),
      kind state { state with backend := (ValueAction.attempt action actor value state.backend).2 }) :
    Admits (.every kind) := by
  have hchanges : ∀ {action pacing actor data trail q},
      (runValues action pacing actor data).Course (fun _ => True) trail q →
        ∀ before after, .changes before after ∈ trail → kind before after := by
    intro action pacing actor data trail q hcourse before after hmem
    obtain ⟨value, state, hdeed⟩ := mem_trail_runValues hcourse hmem
    obtain ⟨rfl, rfl⟩ := Deed.changes.inj hdeed
    exact hattempt action actor value before
  refine ⟨fun before after hbackend hregistry _ _ hmem => ?_, fun action pacing actor data => ?_⟩
  · obtain ⟨rfl, rfl⟩ := Deed.changes.inj (List.mem_singleton.mp hmem)
    exact haside _ _ hbackend hregistry
  · refine .intro hchanges hchanges fun hcourse hbody => ?_
    obtain ⟨_, _, hdeed⟩ := mem_trail_runValues hcourse hbody
    exact absurd hdeed (by simp)

variable {story : Story Runtime PoolName Outcome}

/-- Nested actions one after the other, and an answer from their outcomes. -/
theorem tells_nested {nest : String → ActionProcess} (hnest : ∀ raw, (nest raw).Tells story)
    (raws : List String) (result : List Outcome → Outcome) :
    (Process.sequence (raws.map nest) fun outcomes => .done (result outcomes)).Tells story := by
  refine .sequence (fun p hp => ?_) fun _ => .done _
  obtain ⟨raw, _, rfl⟩ := List.mem_map.mp hp
  exact hnest raw

theorem tells_runConditional {nest : String → ActionProcess} (hnest : ∀ raw, (nest raw).Tells story)
    (world : World) (actor : Actor) (ctx : Context) (data : String) :
    (runConditional nest world actor ctx data).Tells story := by
  unfold runConditional
  split
  · exact .done _
  · extract_lets outcome branch entries
    split
    · exact .done _
    · exact tells_nested hnest _ _

theorem tells_runRandom (h : Admits story) (config : Config) {nest : String → ActionProcess}
    (hnest : ∀ raw, (nest raw).Tells story) (inPlace : Bool) (world : World) (data : String) :
    (runRandom config nest inPlace world data).Tells story := by
  unfold runRandom
  split
  · exact .done _
  · refine .act (fun _ state => h.aside _ _ rfl rfl) fun state => ?_
    split
    · exact .done _
    · rename_i chosen _
      split
      · exact (hnest chosen.action).bind fun _ => .done _
      · refine .spawn (hnest chosen.action) fun task => ?_
        cases task with
        | none => exact .done _
        | some number =>
            refine .join fun result => ?_
            cases result with
            | none => exact .done _
            | some outcome => exact .done _

theorem tells_runDelay {nest later : String → ActionProcess} (hnest : ∀ raw, (nest raw).Tells story)
    (hlater : ∀ raw, (later raw).Tells story) (maxMs : Nat) (data : String) :
    (runDelay nest later maxMs data).Tells story := by
  unfold runDelay
  split
  · exact .done _
  · rename_i delay _
    dsimp only
    split
    · split
      · exact .done _
      · exact tells_nested hnest _ _
    · split
      · exact .done _
      · have hchain := tells_nested hlater delay.chained
        refine .spawn (.sleep (hchain _)) fun task => ?_
        cases task with
        | none => exact .done _
        | some number => exact .done _

theorem tells_runAdded {nest : String → ActionProcess} (hnest : ∀ raw, (nest raw).Tells story)
    (ctx : Context) (handler : AddedHandler) (data : String) :
    (runAdded nest ctx handler data).Tells story := by
  unfold runAdded
  dsimp only
  split
  case h_9 => exact (hnest data).bind fun _ => .done _
  all_goals exact .done _

/-- A handler tells a story when what it nests does. -/
theorem tells_runHandler (h : Admits story) (config : Config) {nest : Bool → String → ActionProcess}
    (hnest : ∀ onRandom raw, (nest onRandom raw).Tells story) (onRandom : Bool) (world : World)
    (actor : Actor) (ctx : Context) (data : String) (handler : Handler) :
    (runHandler config nest onRandom world actor ctx data handler).Tells story := by
  cases handler with
  | value action pacing => exact h.values action pacing actor data
  | conditional => exact tells_runConditional (hnest onRandom) world actor ctx data
  | random => exact tells_runRandom h config (hnest true) onRandom world data
  | delay maxMs => exact tells_runDelay (hnest onRandom) (hnest false) maxMs data
  | added handler => exact tells_runAdded (hnest onRandom) ctx handler data

theorem tells_dispatchWith (h : Admits story) (config : Config)
    {nest : Nat → Bool → String → ActionProcess}
    (hnest : ∀ number onRandom raw, (nest number onRandom raw).Tells story) (parent : Option Nat)
    (onRandom : Bool) (actor : Actor) (action : Action) (ctx : Context) :
    (dispatchWith config nest parent onRandom actor action ctx).Tells story := by
  unfold dispatchWith
  refine .act (fun _ state => ?_) fun state => ?_
  · unfold noteDispatch
    split
    · exact h.aside _ _ rfl rfl
    · exact h.aside _ _ rfl rfl
  · split
    · exact .done _
    · exact (tells_runHandler h config (hnest _) _ _ _ _ _ _).bind fun _ => .done _

/-- At whatever depth an action is dispatched, what it does is put together from value lists. -/
theorem tells_dispatch (h : Admits story) (config : Config) (levels : Nat) (parent : Option Nat)
    (onRandom : Bool) (actor : Actor) (action : Action) (ctx : Context) :
    (dispatch config levels parent onRandom actor action ctx).Tells story := by
  induction levels generalizing parent onRandom action ctx with
  | zero => exact tells_dispatchWith h config (fun _ _ _ => .done _) parent onRandom actor action ctx
  | succ levels ih =>
      exact tells_dispatchWith h config (fun _ onRandom raw => ih _ onRandom _ ctx.nested) parent
        onRandom actor action ctx

end MenuActions.Executor
