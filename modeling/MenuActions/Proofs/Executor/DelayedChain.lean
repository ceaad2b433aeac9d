import MenuActions.Proofs.Executor.OrderlyDispatch
import MenuActions.Proofs.Executor.UnseenRecord
import MenuActions.Proofs.Schedule.DelayedTurns
import MenuActions.Proofs.Schedule.SoundBodies

/-!
# Chains of delayed actions

A delay that is not zero and has actions behind it leaves them to the delay pool as a chain: a task that
sleeps for the delay and then runs the actions one after the other, one level below the context of the
delay.  The dispatch that does so makes no call (`dispatch_leaves`).

Nothing else is ever started on the delay pool: `sound_dispatch` says so of every action that is
dispatched, however deep, and that no process of an action breaks down.
-/

namespace MenuActions.Executor

open Schedule

/-- Actions that are left to the delay pool, with the actor, the context and the number of the dispatch
that has left them there. -/
structure Chain where
  number : Nat
  actor : Actor
  ctx : Context
  delay : Delay

namespace Chain

/-- The process of a chain on the delay pool. -/
def process (config : Config) (chain : Chain) : ActionProcess :=
  .sleep chain.delay.ms
    (.sequence
      (chain.delay.chained.map (nestBelow config chain.actor chain.ctx chain.number false)) fun _ =>
        answer ((ActionResult.success MessageKey.delayCompleted).putCount "delay_ms" chain.delay.ms))

/-- A dispatch of an action in some state leaves a chain to the delay pool. -/
structure LeftBy (action : Action) (state : Runtime) (chain : Chain) : Prop where
  number : chain.number = state.dispatches.length
  delayed : ∃ maxMs, state.registry.lookup action.type = some (.delay maxMs) ∧
    Delay.read maxMs (fill state.toWorld chain.actor chain.ctx action).data.toList = .ok chain.delay
  later : chain.delay.ms ≠ 0
  chained : chain.delay.chained ≠ []

/-- An action of a chain has been begun at a moment and has come to a point.  Within the limit of nesting
it is dispatched at that very moment, one level below the context of the chain. -/
structure Runs (config : Config) (chain : Chain) (raw : String) (now : Nat)
    (trail : List (Nat × Deed Runtime PoolName Outcome)) (last : Nat) (q : ActionProcess) : Prop where
  course : (nestBelow config chain.actor chain.ctx chain.number false raw).Timed now trail last q
  dispatched : chain.ctx.depth < config.maxNestingDepth → ∃ state rest,
    trail = (now, .changes state
      (noteDispatch chain.actor (Action.read config.defaultType raw) chain.ctx.nested
        (some chain.number) state)) :: rest

theorem runs_of_timed (config : Config) (chain : Chain) (raw : String) (now : Nat)
    (trail : List (Nat × Deed Runtime PoolName Outcome)) (last : Nat) (q : ActionProcess)
    (h : (nestBelow config chain.actor chain.ctx chain.number false raw).Timed now trail last q)
    (hq : q.StopsAt last) : chain.Runs config raw now trail last q := by
  refine ⟨h, fun hdepth => ?_⟩
  rw [nestBelow, if_neg (Nat.not_lt_of_le hdepth), dispatch_nestBelow, dispatchWith] at h
  cases h with
  | rest =>
      rcases hq with ⟨result, hdone⟩ | ⟨wait, hhalts⟩
      · exact absurd hdone (by simp)
      · exact nomatch hhalts
  | act state _ => exact ⟨state, _, rfl⟩

end Chain

/-- What is started on the delay pool is a chain. -/
def IsChain (config : Config) : PoolName → ActionProcess → Prop
  | .random, _ => True
  | .delay, body => ∃ (chain : Chain) (action : Action) (state : Runtime),
      chain.LeftBy action state ∧ body = chain.process config

/-! ## The dispatch of a delay -/

/-- What a delay answers when it has left its actions to the pool, or the pool has refused them. -/
def answered (delay : Delay) : Option Nat → Outcome
  | none => .ok (.ofError (.poolShutdown PoolName.delay.text))
  | some _ =>
      .ok (((ActionResult.success MessageKey.delayScheduled).putCount "delay_ms" delay.ms).putCount
        "actions" delay.chained.length)

/-- A dispatch that leaves a chain to the delay pool takes a note, starts the task and ends with an answer.
It makes no call. -/
theorem dispatch_leaves {config : Config} {chain : Chain} {action : Action} {state : Runtime}
    (h : chain.LeftBy action state) (parent : Option Nat) (onRandom : Bool) :
    (∃ next : Runtime → ActionProcess,
      dispatch config (levelsBelow config chain.ctx) parent onRandom chain.actor action chain.ctx =
        .act (fun _ state => noteDispatch chain.actor action chain.ctx parent state) next ∧
      next state = .spawn .delay (chain.process config) fun task => .done (answered chain.delay task)) ∧
    (noteDispatch chain.actor action chain.ctx parent state).backend = state.backend := by
  refine ⟨?_, congrArg World.backend (noteDispatch_toWorld action parent state)⟩
  obtain ⟨maxMs, hlookup, hread⟩ := h.delayed
  have hsome : ¬chain.delay.chained.isEmpty = true := by simpa using h.chained
  rw [dispatch_nestBelow, dispatchWith]
  refine ⟨_, rfl, ?_⟩
  dsimp only
  rw [hlookup, ← h.number]
  dsimp only
  rw [runHandler, runDelay, hread]
  dsimp only
  rw [if_neg h.later, if_neg hsome, Process.bind, Chain.process]
  congr 1
  funext task
  cases task with
  | none => rfl
  | some number => rfl

/-! ## Everything that is dispatched is sound -/

section Sound

variable {kind : PoolName → ActionProcess → Prop}

theorem sound_runValue (action : ValueAction) (actor : Actor) (value : String) :
    (runValue action actor value).Sound kind := by
  unfold runValue
  split
  · exact fun _ => trivial
  · trivial

theorem sound_runFrom {item : String → ActionProcess} (hitem : ∀ value, (item value).Sound kind)
    (type : String) (pacing total : Nat) (values : List String) (results : List ActionResult) :
    (Sequence.runFrom type pacing total item results values).Sound kind := by
  induction values generalizing results with
  | nil => trivial
  | cons value values ih =>
      have hbody : ((item value).bind fun outcome =>
          Sequence.runFrom type pacing total item (results ++ [outcome.result]) values).Sound kind :=
        (hitem value).bind fun _ => ih _
      rw [Sequence.runFrom]
      split
      · exact hbody
      · intro interrupted
        cases interrupted with
        | true => trivial
        | false => exact hbody

theorem sound_runValues (action : ValueAction) (pacing : Nat) (actor : Actor) (data : String) :
    (runValues action pacing actor data).Sound kind := by
  unfold runValues
  split
  · trivial
  · unfold Sequence.run
    split
    · trivial
    · exact sound_runValue action actor _
    · exact sound_runFrom (sound_runValue action actor) _ _ _ _ _

theorem sound_nested {nest : String → ActionProcess} (hnest : ∀ raw, (nest raw).Sound kind)
    (raws : List String) (result : List Outcome → Outcome) :
    (Process.sequence (raws.map nest) fun outcomes => .done (result outcomes)).Sound kind := by
  refine .sequence (fun p hp => ?_) fun _ => trivial
  obtain ⟨raw, _, rfl⟩ := List.mem_map.mp hp
  exact hnest raw

theorem sound_runConditional {nest : String → ActionProcess} (hnest : ∀ raw, (nest raw).Sound kind)
    (world : World) (actor : Actor) (ctx : Context) (data : String) :
    (runConditional nest world actor ctx data).Sound kind := by
  unfold runConditional
  split
  · trivial
  · extract_lets outcome branch entries
    split
    · trivial
    · exact sound_nested hnest _ _

theorem sound_runRandom (config : Config) {nest : String → ActionProcess}
    (hnest : ∀ raw, (nest raw).Sound kind) (hkind : ∀ raw, kind .random (nest raw)) (inPlace : Bool)
    (world : World) (data : String) : (runRandom config nest inPlace world data).Sound kind := by
  unfold runRandom
  split
  · trivial
  · intro state
    dsimp only
    split
    · trivial
    · rename_i chosen _
      split
      · exact (hnest chosen.action).bind fun _ => trivial
      · refine ⟨⟨hkind _, hnest chosen.action⟩, fun task => ?_⟩
        cases task with
        | none => trivial
        | some number =>
            intro result
            cases result with
            | none => trivial
            | some outcome => trivial

/-- A delay is sound when what it leaves to its pool is of the kind of that pool. -/
theorem sound_runDelay {nest later : String → ActionProcess} (hnest : ∀ raw, (nest raw).Sound kind)
    (hlater : ∀ raw, (later raw).Sound kind) (maxMs : Nat) (data : String)
    (hkind : ∀ delay, Delay.read maxMs data.toList = .ok delay → delay.ms ≠ 0 → delay.chained ≠ [] →
      kind .delay (.sleep delay.ms (.sequence (delay.chained.map later) fun _ =>
        answer ((ActionResult.success MessageKey.delayCompleted).putCount "delay_ms" delay.ms)))) :
    (runDelay nest later maxMs data).Sound kind := by
  unfold runDelay
  split
  · trivial
  · rename_i delay hread
    dsimp only
    split
    · split
      · trivial
      · exact sound_nested hnest _ _
    · rename_i hms
      split
      · trivial
      · rename_i hchained
        have hbody := sound_nested hlater delay.chained
        refine ⟨⟨hkind delay hread hms (by simpa using hchained), hbody _⟩, fun task => ?_⟩
        cases task with
        | none => trivial
        | some number => trivial

theorem sound_runAdded {nest : String → ActionProcess} (hnest : ∀ raw, (nest raw).Sound kind)
    (ctx : Context) (handler : AddedHandler) (data : String) :
    (runAdded nest ctx handler data).Sound kind := by
  unfold runAdded
  dsimp only
  split
  case h_9 => exact (hnest data).bind fun _ => trivial
  all_goals trivial

/-- A handler is sound when what it nests is, and when what it starts is of the right kind. -/
theorem sound_runHandler (config : Config) {nest : Bool → String → ActionProcess}
    (hnest : ∀ onRandom raw, (nest onRandom raw).Sound kind) (hrandom : ∀ p, kind .random p)
    (onRandom : Bool) (world : World) (actor : Actor) (ctx : Context) (data : String)
    (handler : Handler)
    (hdelay : ∀ maxMs delay, handler = .delay maxMs → Delay.read maxMs data.toList = .ok delay →
      delay.ms ≠ 0 → delay.chained ≠ [] →
        kind .delay (.sleep delay.ms (.sequence (delay.chained.map (nest false)) fun _ =>
          answer ((ActionResult.success MessageKey.delayCompleted).putCount "delay_ms" delay.ms)))) :
    (runHandler config nest onRandom world actor ctx data handler).Sound kind := by
  cases handler with
  | value action pacing => exact sound_runValues action pacing actor data
  | conditional => exact sound_runConditional (hnest onRandom) world actor ctx data
  | random => exact sound_runRandom config (hnest true) (fun _ => hrandom _) onRandom world data
  | delay maxMs =>
      exact sound_runDelay (hnest onRandom) (hnest false) maxMs data fun delay => hdelay maxMs delay rfl
  | added handler => exact sound_runAdded (hnest onRandom) ctx handler data

end Sound

/-- Every action, in whatever context, is sound: it does not break down, and neither it nor what it starts
leaves anything but chains to the delay pool. -/
theorem sound_dispatch (config : Config) (parent : Option Nat) (onRandom : Bool) (actor : Actor)
    (action : Action) (ctx : Context) :
    (dispatch config (levelsBelow config ctx) parent onRandom actor action ctx).Sound
      (IsChain config) := by
  -- What is nested has fewer levels below it.
  induction hlevels : levelsBelow config ctx using Nat.strongRecOn
    generalizing parent onRandom action ctx with
  | ind levels ih =>
      have hnest : ∀ number onRandom raw,
          (nestBelow config actor ctx number onRandom raw).Sound (IsChain config) := by
        intro number onRandom raw
        unfold nestBelow
        split
        · trivial
        · rename_i hleft
          refine ih _ ?_ _ _ _ ctx.nested rfl
          rw [← hlevels]
          unfold levelsBelow
          show config.maxNestingDepth - (ctx.depth + 1) < config.maxNestingDepth - ctx.depth
          omega
      rw [← hlevels, dispatch_nestBelow, dispatchWith]
      intro state
      dsimp only
      split
      · trivial
      · rename_i handler hlookup
        refine Process.Sound.bind ?_ fun _ => trivial
        refine sound_runHandler config (hnest _) (fun _ => trivial) _ _ _ _ _ _ ?_
        rintro maxMs delay rfl hread hms hchained
        exact ⟨⟨state.dispatches.length, actor, ctx, delay⟩, action, state,
          ⟨rfl, ⟨maxMs, hlookup, hread⟩, hms, hchained⟩, rfl⟩

end MenuActions.Executor
