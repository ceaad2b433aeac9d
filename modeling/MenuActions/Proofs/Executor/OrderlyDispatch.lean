import MenuActions.Proofs.Executor.DispatchRecord
import MenuActions.Proofs.Schedule.Orderly

/-!
# Dispatching is orderly

The process of an action waits only for tasks on the random pool, which itself waits for none; when it
is triggered within the limit of the configuration, it keeps the record of dispatches a forest of
bounded height.  This holds whatever the placeholders, the values and the draws are: a dispatch one
level deeper has one level less below it, and that alone ends the nesting.

Each handler is orderly when what it nests is (`keeps_runHandler`), and `keeps_dispatch` and
`keeps_dispatch_levels` follow by induction on the levels that are left.
-/

namespace MenuActions

open Schedule

/-- Tasks on the delay pool may wait for tasks on the random pool, and not the other way round. -/
def PoolName.rank : PoolName → Nat
  | .random => 0
  | .delay => 1

namespace Executor

/-- The level of a process on the random pool, or elsewhere: on the delay pool or in the
foreground. -/
def levelOn (onRandom : Bool) : Nat :=
  if onRandom then PoolName.random.rank else PoolName.delay.rank

/-- A process that keeps what is held of the record of dispatches, and waits only for the random pool. -/
def Keeps (held : List Dispatch → Prop) (onRandom : Bool) (p : ActionProcess) (state : Runtime) :
    Prop :=
  p.Orderly (fun state => held state.dispatches) PoolName.rank (levelOn onRandom) state

variable {held : List Dispatch → Prop} {onRandom : Bool} {state : Runtime}

theorem keeps_done (outcome : Outcome) : Keeps held onRandom (.done outcome) state :=
  .done

/-- A change that leaves the record alone. -/
theorem keeps_act {effect : Nat → Runtime → Runtime} {next : Runtime → ActionProcess}
    (heffect : ∀ now s, (effect now s).dispatches = s.dispatches)
    (hnext : ∀ s later, state ≤ later → Keeps held onRandom (next s) later) :
    Keeps held onRandom (.act effect next) state := by
  have hle : ∀ now (s : Runtime), s ≤ effect now s :=
    fun now s => ⟨[], by rw [heffect, List.append_nil]⟩
  refine .act (fun s _ hs now => ⟨hle now s, ?_⟩) fun s hs _ now => ?_
  · rw [heffect]
    exact hs
  · exact hnext s _ (le_trans hs (hle now s))

theorem keeps_runValue (action : ValueAction) (actor : Actor) (value : String) :
    Keeps held onRandom (runValue action actor value) state := by
  unfold runValue
  split
  · exact keeps_act (fun _ _ => rfl) fun s later _ => keeps_done _
  · exact keeps_done _

theorem keeps_runFrom {α : Type} {item : α → ActionProcess}
    (hitem : ∀ value (s : Runtime), Keeps held onRandom (item value) s) (type : String)
    (pacing total : Nat) (values : List α) (results : List ActionResult) :
    Keeps held onRandom (Sequence.runFrom type pacing total item results values) state := by
  induction values generalizing results state with
  | nil => exact keeps_done _
  | cons value values ih =>
      have hbody : Keeps held onRandom
          ((item value).bind fun outcome =>
            Sequence.runFrom type pacing total item (results ++ [outcome.result]) values) state :=
        Process.Orderly.bind (hitem value state) fun _ _ _ => ih _
      rw [Sequence.runFrom]
      split
      · exact hbody
      · refine .pause fun interrupted => ?_
        cases interrupted with
        | true => exact keeps_done _
        | false => exact hbody

theorem keeps_sequence {α : Type} {item : α → ActionProcess}
    (hitem : ∀ value (s : Runtime), Keeps held onRandom (item value) s) (type : String)
    (pacing : Nat) (values : List α) :
    Keeps held onRandom (Sequence.run type pacing values item) state := by
  unfold Sequence.run
  split
  · exact keeps_done _
  · exact hitem _ _
  · exact keeps_runFrom hitem _ _ _ _ _

theorem keeps_runValues (action : ValueAction) (pacing : Nat) (actor : Actor) (data : String) :
    Keeps held onRandom (runValues action pacing actor data) state := by
  unfold runValues
  split
  · exact keeps_done _
  · exact keeps_sequence (fun value s => keeps_runValue action actor value) _ _ _

/-- Nested actions one after the other, and an answer from their outcomes. -/
theorem keeps_nested {nest : String → ActionProcess}
    (hnest : ∀ raw, Keeps held onRandom (nest raw) state) (raws : List String)
    (result : List Outcome → Outcome) :
    Keeps held onRandom (Process.sequence (raws.map nest) fun outcomes => .done (result outcomes))
      state := by
  refine Process.Orderly.sequence (fun p hp => ?_) fun _ _ _ => keeps_done _
  obtain ⟨raw, _, rfl⟩ := List.mem_map.mp hp
  exact hnest raw

theorem keeps_runConditional {nest : String → ActionProcess}
    (hnest : ∀ raw, Keeps held onRandom (nest raw) state) (world : World) (actor : Actor)
    (ctx : Context) (data : String) :
    Keeps held onRandom (runConditional nest world actor ctx data) state := by
  unfold runConditional
  split
  · exact keeps_done _
  · extract_lets outcome branch entries
    split
    · exact keeps_done _
    · exact keeps_nested hnest _ _

/-- A random choice nests its action on the random pool: it waits for that pool when it is elsewhere,
and nests in place when it is there already. -/
theorem keeps_runRandom (config : Config) {nest : String → ActionProcess}
    (hnest : ∀ raw later, state ≤ later → Keeps held true (nest raw) later) (world : World)
    (data : String) : Keeps held onRandom (runRandom config nest onRandom world data) state := by
  unfold runRandom
  split
  · exact keeps_done _
  · refine keeps_act (fun _ _ => rfl) fun s later hlater => ?_
    split
    · exact keeps_done _
    · rename_i chosen _
      have hchosen := hnest chosen.action later hlater
      cases onRandom with
      | true => exact Process.Orderly.bind hchosen fun _ _ _ => keeps_done _
      | false =>
          -- Off the random pool, the level is that of the delay pool, which is above it.
          refine .call (by decide) hchosen (keeps_done _) (fun task => rfl) fun task answer => ?_
          cases answer with
          | none => exact keeps_done _
          | some outcome => exact keeps_done _

/-- A delay nests its actions in place, or leaves them to a task on the delay pool. -/
theorem keeps_runDelay {nest later : String → ActionProcess}
    (hnest : ∀ raw, Keeps held onRandom (nest raw) state)
    (hlater : ∀ raw, Keeps held false (later raw) state) (maxMs : Nat) (data : String) :
    Keeps held onRandom (runDelay nest later maxMs data) state := by
  unfold runDelay
  split
  · exact keeps_done _
  · rename_i delay _
    dsimp only
    split
    · split
      · exact keeps_done _
      · exact keeps_nested hnest _ _
    · split
      · exact keeps_done _
      · -- The task is not waited for, so its pool may rank as high as the process itself.
        have hchain := keeps_nested hlater delay.chained
        refine .start (.sleep (hchain _)) fun task => ?_
        cases task with
        | none => exact keeps_done _
        | some number => exact keeps_done _

theorem keeps_runAdded {nest : String → ActionProcess}
    (hnest : ∀ raw, Keeps held onRandom (nest raw) state) (ctx : Context)
    (handler : AddedHandler) (data : String) :
    Keeps held onRandom (runAdded nest ctx handler data) state := by
  unfold runAdded
  dsimp only
  split
  case h_9 => exact Process.Orderly.bind (hnest data) fun _ _ _ => keeps_done _
  all_goals exact keeps_done _

/-- A handler is orderly when what it nests is. -/
theorem keeps_runHandler (config : Config) {nest : Bool → String → ActionProcess}
    (hnest : ∀ onRandom raw later, state ≤ later → Keeps held onRandom (nest onRandom raw) later)
    (world : World) (actor : Actor) (ctx : Context) (data : String) (handler : Handler) :
    Keeps held onRandom (runHandler config nest onRandom world actor ctx data handler) state := by
  cases handler with
  | value action pacing => exact keeps_runValues action pacing actor data
  | conditional => exact keeps_runConditional (fun raw => hnest _ raw _ le_rfl) world actor ctx data
  | random => exact keeps_runRandom config (hnest true) world data
  | delay maxMs =>
      exact keeps_runDelay (fun raw => hnest _ raw _ le_rfl) (fun raw => hnest _ raw _ le_rfl)
        maxMs data
  | added handler => exact keeps_runAdded (fun raw => hnest _ raw _ le_rfl) ctx handler data

/-- Runs a raw action one level below a context, in the dispatch of a number. -/
def nestBelow (config : Config) (actor : Actor) (ctx : Context) (number : Nat) (onRandom : Bool)
    (raw : String) : ActionProcess :=
  if config.maxNestingDepth < ctx.depth + 1 then tooDeep config ctx
  else
    dispatch config (levelsBelow config ctx.nested) (some number) onRandom actor
      (Action.read config.defaultType raw) ctx.nested

/-- Below a context whose depth is within the limit, what is left is what a level deeper leaves and
one more, and nesting passes the check of the depth exactly when a level is left. -/
theorem dispatch_levelsBelow (config : Config) (parent : Option Nat) (onRandom : Bool)
    (actor : Actor) (action : Action) (ctx : Context) :
    dispatch config (levelsBelow config ctx) parent onRandom actor action ctx =
      dispatchWith config
        (fun number onRandom raw =>
          if config.maxNestingDepth < ctx.depth + 1 then tooDeep config ctx
          else
            dispatch config (levelsBelow config ctx.nested) (some number) onRandom actor
              (Action.read config.defaultType raw) ctx.nested)
        parent onRandom actor action ctx := by
  cases hlevels : levelsBelow config ctx with
  | zero =>
      have hdeep : config.maxNestingDepth < ctx.depth + 1 := by
        unfold levelsBelow at hlevels
        omega
      rw [dispatch]
      simp only [if_pos hdeep]
  | succ levels =>
      have hleft : ¬config.maxNestingDepth < ctx.depth + 1 := by
        unfold levelsBelow at hlevels
        omega
      have hnested : levelsBelow config ctx.nested = levels := by
        unfold levelsBelow at hlevels ⊢
        show config.maxNestingDepth - (ctx.depth + 1) = levels
        omega
      rw [dispatch, hnested]
      simp only [if_neg hleft]

theorem dispatch_nestBelow (config : Config) (parent : Option Nat) (onRandom : Bool) (actor : Actor)
    (action : Action) (ctx : Context) :
    dispatch config (levelsBelow config ctx) parent onRandom actor action ctx =
      dispatchWith config (nestBelow config actor ctx) parent onRandom actor action ctx :=
  dispatch_levelsBelow config parent onRandom actor action ctx

theorem le_noteDispatch (actor : Actor) (action : Action) (ctx : Context) (parent : Option Nat)
    (s : Runtime) : s ≤ noteDispatch actor action ctx parent s := by
  unfold noteDispatch
  split
  · exact List.prefix_append _ _
  · exact le_rfl

/-- A dispatch that may be noted is orderly when what it nests is. -/
theorem keeps_dispatchWith (config : Config) {nest : Nat → Bool → String → ActionProcess}
    {parent : Option Nat} (actor : Actor) (action : Action) (ctx : Context)
    (hnote : ∀ s, state ≤ s → held s.dispatches →
      held (noteDispatch actor action ctx parent s).dispatches)
    (hnest : ∀ s, s.registry.contains action.type = true → ∀ onRandom raw later,
      noteDispatch actor action ctx parent s ≤ later →
        Keeps held onRandom (nest s.dispatches.length onRandom raw) later) :
    Keeps held onRandom (dispatchWith config nest parent onRandom actor action ctx) state := by
  unfold dispatchWith
  refine .act (fun s hs hheld now => ?_) fun s hs hheld now => ?_
  · exact ⟨le_noteDispatch actor action ctx parent s, hnote s hs hheld⟩
  · split
    · exact keeps_done _
    · rename_i handler hlookup
      have hknown : s.registry.contains action.type = true := by
        rw [Registry.contains, hlookup]
        rfl
      refine Process.Orderly.bind ?_ fun _ _ _ => keeps_done _
      exact keeps_runHandler config (hnest s hknown) _ _ _ _ _

/-- The process of an action is orderly, whatever is nested in it. -/
theorem keeps_dispatch (config : Config) (parent : Option Nat) (onRandom : Bool) (actor : Actor)
    (action : Action) (ctx : Context) (state : Runtime)
    (hdepth : ctx.depth ≤ config.maxNestingDepth)
    (hfits : Dispatch.Fits state.dispatches parent ctx.depth) :
    Keeps (Dispatch.Forest config.maxNestingDepth) onRandom
      (dispatch config (levelsBelow config ctx) parent onRandom actor action ctx) state := by
  -- Neither the text of the action nor the world gets smaller on the way down, only the levels do.
  induction hlevels : levelsBelow config ctx using Nat.strongRecOn
    generalizing parent onRandom action ctx state with
  | ind levels ih =>
      rw [← hlevels, dispatch_levelsBelow]
      refine keeps_dispatchWith config actor action ctx (fun s hs hforest => ?_) ?_
      · unfold noteDispatch
        split
        · exact hforest.append hdepth (hfits.mono hs)
        · exact hforest
      · intro s hknown onRandom raw later hlater
        -- The dispatch stands at the number that is handed to what is nested in it.
        have hnoted : Dispatch.Fits (noteDispatch actor action ctx parent s).dispatches
            (some s.dispatches.length) (ctx.depth + 1) := by
          rw [noteDispatch, if_pos hknown]
          exact ⟨_, List.getElem?_concat_length, rfl⟩
        split
        · exact keeps_done _
        · rename_i hleft
          have hnext : ctx.nested.depth ≤ config.maxNestingDepth := Nat.le_of_not_lt hleft
          have hless : levelsBelow config ctx.nested < levels := by
            rw [← hlevels]
            unfold levelsBelow
            show config.maxNestingDepth - (ctx.depth + 1) < config.maxNestingDepth - ctx.depth
            omega
          exact ih _ hless _ onRandom _ ctx.nested later hnext (hnoted.mono hlater) rfl

/-- At whatever depth an action is dispatched, its process waits only for the random pool, and for no
task at all on that pool. -/
theorem keeps_dispatch_levels (config : Config) (levels : Nat) (parent : Option Nat)
    (onRandom : Bool) (actor : Actor) (action : Action) (ctx : Context) (state : Runtime) :
    Keeps (fun _ => True) onRandom (dispatch config levels parent onRandom actor action ctx)
      state := by
  induction levels generalizing parent onRandom action ctx state with
  | zero =>
      exact keeps_dispatchWith config actor action ctx (fun _ _ _ => trivial)
        fun _ _ _ _ _ _ => keeps_done _
  | succ levels ih =>
      exact keeps_dispatchWith config actor action ctx (fun _ _ _ => trivial)
        fun _ _ onRandom raw later _ => ih _ onRandom _ ctx.nested later

end Executor

end MenuActions
