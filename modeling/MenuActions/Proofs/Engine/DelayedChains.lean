import MenuActions.Proofs.Engine.Finality
import MenuActions.Proofs.Engine.RandomWaits
import MenuActions.Proofs.Executor.DelayedChain
import MenuActions.Proofs.Schedule.FreeWorkers

/-!
# Delayed chains

Whatever actions run side by side on an engine, the chains that delays leave to their pool run on time, in
order and once.  `delayed_chains` says so of every timeline of the engine and of every task that is seen to
start on the delay pool: its actions follow one another from just the moment at which the delay after its
permit is over, and it ends when all have ended, unless a shutdown cancels it.

`chain_seen` reads one task off the log.  What is said of free workers comes from
`Crowd.Timeline.next_at_once`, and that every chain runs to its end when time passes from the order in
which tasks wait for one another.
-/

namespace MenuActions.Engine

open Executor Schedule Sighting

variable {config : Config} {world : World} {log more : List (Sighting Runtime PoolName Outcome)}
  {crowd later : Crowd Runtime PoolName Outcome}

/-- What comes of a crowd of an engine, with the log of what is seen of the tasks: the host triggers
actions at any time and in any context, and replaces the world as it likes. -/
abbrev Unfolds (config : Config) (crowd : Crowd Runtime PoolName Outcome)
    (log : List (Sighting Runtime PoolName Outcome)) (later : Crowd Runtime PoolName Outcome) : Prop :=
  Crowd.Timeline (Triggers config) Runtime.Replaced crowd log later

/-- The crowd of an engine on which nothing has happened. -/
def fresh (config : Config) (world : World) : Crowd Runtime PoolName Outcome :=
  ⟨(start config world).machine, []⟩

theorem sound_of_triggers {p : ActionProcess} (h : Triggers config p) : p.Sound (IsChain config) := by
  obtain ⟨actor, action, ctx, rfl⟩ := h
  exact sound_dispatch config none false actor action ctx

theorem sound_fresh (config : Config) (world : World) : (fresh config world).Sound (IsChain config) :=
  ⟨fun _ h => absurd h List.not_mem_nil, fun _ h => absurd h List.not_mem_nil⟩

/-- A log tells of a task that was started at some moment on the delay pool, and of which something has been
seen since: it is a chain that was left there by a dispatch. -/
structure Told (config : Config) (log : List (Sighting Runtime PoolName Outcome)) (t id : Nat)
    (body : ActionProcess) (chain : Chain) (sights : List (Nat × Sight Runtime PoolName Outcome)) :
    Prop where
  left : ∃ action state, chain.LeftBy action state
  process : body = chain.process config
  seen : of id log = (t, .scheduled .delay body) :: sights

/-- A chain has not ended in a crowd. -/
def StillPending (config : Config) (crowd : Crowd Runtime PoolName Outcome) (t id : Nat)
    (chain : Chain) (permit : Option Nat) (sights : List (Nat × Sight Runtime PoolName Outcome)) :
    Prop :=
  (∃ task ∈ crowd.machine.tasks, task.id = id ∧ task.pool = .delay) ∧
    Pending (chain.Runs config) chain.delay.ms chain.delay.chained t crowd.machine.now permit sights

/-- A chain has ended in a crowd; if it was cancelled, the delay pool has been shut down. -/
def IsOver (config : Config) (crowd : Crowd Runtime PoolName Outcome) (t id : Nat) (chain : Chain)
    (permit : Option Nat) (sights : List (Nat × Sight Runtime PoolName Outcome))
    (ending : Ending Outcome) : Prop :=
  (id, ending) ∈ crowd.machine.ended ∧
    Over (chain.Runs config) chain.delay.ms chain.delay.chained t permit sights ending ∧
    (ending = .cancelled → (crowd.machine.pools .delay).closed = true)

/-- A task that is seen to start on the delay pool is a chain, which is pending or over. -/
theorem chain_seen (h : Unfolds config (fresh config world) log crowd) {t id : Nat}
    {body : ActionProcess} (hseen : ⟨t, id, .scheduled .delay body⟩ ∈ log) :
    ∃ chain permit sights, Told config log t id body chain sights ∧
      (StillPending config crowd t id chain permit sights ∨
        ∃ ending, IsOver config crowd t id chain permit sights ending) := by
  obtain ⟨⟨chain, action, state, hleft, rfl⟩, hsound⟩ :=
    h.scheduled_sound (sound_fresh config world) (fun _ => sound_of_triggers) hseen
  -- A sound process does not come to break down.
  have hcrash : ∀ now trail last, ¬(chain.process config).Timed now trail last .crash :=
    fun now trail last htimed => hsound.timed htimed
  obtain ⟨permit, sights, hsights, hwhere⟩ := Kept.delayed (fun _ => ⟨_, rfl⟩)
    (chain.runs_of_timed config) hcrash h.kept hseen
  refine ⟨chain, permit, sights, ⟨⟨action, state, hleft⟩, rfl, hsights⟩, ?_⟩
  rcases hwhere with ⟨task, htask, hid, hpool, hpending⟩ | ⟨ending, hended⟩
  · exact Or.inl ⟨⟨task, htask, hid, hpool⟩, hpending⟩
  · exact Or.inr ⟨ending, hended⟩

/-- A chain that was left to the delay pool at the present moment, behind fewer chains than the pool has
workers, has obtained its permit at this moment, or the moment has not passed, or it was cancelled in it. -/
theorem chain_permitted (h : Unfolds config (fresh config world) log crowd)
    (hmore : Unfolds config crowd more later) {id : Nat} {body : ActionProcess}
    (hseen : ⟨crowd.machine.now, id, .scheduled .delay body⟩ ∈ log)
    (hfree : crowd.machine.older .delay id < max config.pools.delayWorkers 1) {chain : Chain}
    {permit : Option Nat} {sights : List (Nat × Sight Runtime PoolName Outcome)}
    (htold : Told config (log ++ more) crowd.machine.now id body chain sights)
    (hwhere : StillPending config later crowd.machine.now id chain permit sights ∨
      ∃ ending, IsOver config later crowd.machine.now id chain permit sights ending) :
    permit = some crowd.machine.now ∨
      permit = none ∧ (later.machine.now = crowd.machine.now ∨
        sights = [(crowd.machine.now, .ended .cancelled)]) := by
  obtain ⟨sights', hsights', hnext, hwaits⟩ := h.next_at_once hseen hfree hmore
  obtain rfl : sights = sights' := (List.cons.inj (htold.seen.symm.trans hsights')).2
  rcases hwhere with ⟨-, hpending⟩ | ⟨ending, -, hover, -⟩
  · have hhead := hpending.head?_eq
    cases permit with
    | none => exact Or.inr ⟨rfl, Or.inl (hwaits (List.head?_eq_none_iff.mp hhead))⟩
    | some permitted => exact Or.inl (congrArg some (hnext _ hhead))
  · rcases hover.head?_eq with ⟨permitted, rfl, hhead⟩ | ⟨rfl, moment, rfl⟩
    · exact Or.inl (congrArg some (hnext _ hhead))
    · obtain rfl : moment = crowd.machine.now := hnext _ rfl
      exact Or.inr ⟨rfl, Or.inr rfl⟩

/-- When time passes, every chain that has not been cancelled before runs to its end. -/
theorem chains_run (h : Unfolds config (fresh config world) log crowd) :
    ∃ quiet, ∀ moment, quiet ≤ moment →
      ∃ more, Unfolds config crowd more ⟨crowd.machine.advanceTo moment, crowd.callers⟩ ∧
        ∀ t id body, ⟨t, id, .scheduled .delay body⟩ ∈ log ++ more →
          (id, .cancelled) ∈ crowd.machine.ended ∨
            ∃ chain permit sights outcome, Told config (log ++ more) t id body chain sights ∧
              IsOver config ⟨crowd.machine.advanceTo moment, crowd.callers⟩ t id chain permit sights
                (.finished outcome) := by
  have hcrowded : Crowded config crowd := ⟨world, h.reaches⟩
  obtain ⟨quiet, hquiet⟩ := hcrowded.orderly.machine.comes_to_rest
  refine ⟨quiet, fun moment hmoment => ?_⟩
  obtain ⟨more, hmore⟩ :=
    Crowd.timeline_of_punctually (Machine.punctually_advanceTo moment crowd.machine)
  refine ⟨more, hmore, fun t id body hseen => ?_⟩
  obtain ⟨chain, permit, sights, htold, hpending | ⟨ending, hover⟩⟩ := chain_seen (h.trans hmore) hseen
  · obtain ⟨⟨task, htask, -⟩, -⟩ := hpending
    rw [hquiet moment hmoment] at htask
    exact absurd htask List.not_mem_nil
  · cases ending with
    | finished outcome => exact Or.inr ⟨chain, permit, sights, outcome, htold, hover⟩
    | cancelled => exact Or.inl (Machine.cancelled_of_advanceTo hover.1)
    | panicked => exact nomatch hover.2.1

/-- Delayed chains.  Whatever actions run side by side on an engine: the dispatch of a delay that is not zero
and has actions behind it only takes its note and starts the task of a chain, and makes no call.  Every task
that is ever seen to start on the delay pool is such a chain.  It waits for its permit, or it sleeps, or it
has gone through its actions in the written order, one after the other and each of them once, since just
the delay after its permit; within the limit of nesting each is dispatched one level below the context of
the delay, at the moment at which the one before it has ended.  The chain ends when none of its actions is
left, or it is cancelled, which happens only after a shutdown.  When it was started behind fewer chains
than the pool has workers, its permit is of the moment of its start, which has not passed as long as it has
none.  And when time passes, every chain that has not been cancelled runs to its end. -/
theorem delayed_chains (h : Unfolds config (fresh config world) log crowd) :
    (∀ (chain : Chain) action state, chain.LeftBy action state → ∀ parent onRandom,
      (∃ next : Runtime → ActionProcess,
        dispatch config (levelsBelow config chain.ctx) parent onRandom chain.actor action chain.ctx =
          .act (fun _ state => noteDispatch chain.actor action chain.ctx parent state) next ∧
        next state =
          .spawn .delay (chain.process config) fun task => .done (answered chain.delay task)) ∧
      (noteDispatch chain.actor action chain.ctx parent state).backend = state.backend) ∧
    (∀ t id body, ⟨t, id, .scheduled .delay body⟩ ∈ log →
      ∃ chain permit sights, Told config log t id body chain sights ∧
        (StillPending config crowd t id chain permit sights ∨
          ∃ ending, IsOver config crowd t id chain permit sights ending)) ∧
    (∀ more later, Unfolds config crowd more later →
      let t := crowd.machine.now
      ∀ id body chain permit sights, ⟨t, id, .scheduled .delay body⟩ ∈ log →
        crowd.machine.older .delay id < max config.pools.delayWorkers 1 →
        Told config (log ++ more) t id body chain sights →
        (StillPending config later t id chain permit sights ∨
          ∃ ending, IsOver config later t id chain permit sights ending) →
        permit = some t ∨
          permit = none ∧ (later.machine.now = t ∨ sights = [(t, .ended .cancelled)])) ∧
    ∃ quiet, ∀ moment, quiet ≤ moment →
      ∃ more, Unfolds config crowd more ⟨crowd.machine.advanceTo moment, crowd.callers⟩ ∧
        ∀ t id body, ⟨t, id, .scheduled .delay body⟩ ∈ log ++ more →
          (id, .cancelled) ∈ crowd.machine.ended ∨
            ∃ chain permit sights outcome, Told config (log ++ more) t id body chain sights ∧
              IsOver config ⟨crowd.machine.advanceTo moment, crowd.callers⟩ t id chain permit sights
                (.finished outcome) := by
  refine ⟨fun chain action state hleft parent onRandom => ?_, fun t id body hseen => ?_,
    fun more later hmore => ?_, chains_run h⟩
  · exact dispatch_leaves hleft parent onRandom
  · exact chain_seen h hseen
  · intro t id body chain permit sights hseen hfree htold hwhere
    exact chain_permitted h hmore hseen hfree htold hwhere

/-- The chain of a long delay is pending at moment zero.  It is alone on its pool, so its permit is of that
moment, and it runs to its end when time passes. -/
theorem delayed_chains_long :
    ∃ world log id body,
      Unfolds Config.standard (fresh Config.standard world) log ⟨delayed.machine, []⟩ ∧
      ⟨0, id, .scheduled .delay body⟩ ∈ log ∧
      (∃ chain permit sights, Told Config.standard log 0 id body chain sights ∧
        StillPending Config.standard ⟨delayed.machine, []⟩ 0 id chain permit sights) ∧
      ∃ moment more chain sights outcome,
        Told Config.standard (log ++ more) 0 id body chain sights ∧
          IsOver Config.standard ⟨delayed.machine.advanceTo moment, []⟩ 0 id chain (some 0) sights
            (.finished outcome) := by
  have hreached : Reached Config.standard delayed := .trigger _ _ _ (.start _) rfl
  obtain ⟨world, log, hlog⟩ := hreached.timeline
  have hinFlight : delayed.machine.inFlight .delay = 1 := by decide +kernel
  have hnow : delayed.machine.now = 0 := by decide +kernel
  have hended : delayed.machine.ended = [] := List.length_eq_zero_iff.mp (by decide +kernel)
  obtain ⟨-, hseen, hpermits, quiet, hruns⟩ := delayed_chains hlog
  -- The task in flight has been seen to start.
  obtain ⟨task, htask⟩ : ∃ task, task ∈ delayed.machine.tasksOf .delay :=
    List.exists_mem_of_length_pos (by rw [← Machine.inFlight, hinFlight]; exact Nat.one_pos)
  obtain ⟨hlisted, hpool⟩ := Machine.mem_tasksOf.mp htask
  obtain ⟨t, body, rest, hsights, -⟩ := (hlog.kept.alive task hlisted).startsWith
  rw [hpool] at hsights
  have hstart : ⟨t, task.id, .scheduled .delay body⟩ ∈ log :=
    mem_of.mp (hsights ▸ List.mem_cons_self)
  obtain rfl : t = 0 := Nat.le_zero.mp (hnow ▸ hlog.sorted.2 _ hstart)
  refine ⟨world, log, task.id, body, hlog, hstart, ?_, ?_⟩
  · obtain ⟨chain, permit, sights, htold, hpending | ⟨ending, hover, -⟩⟩ := hseen 0 task.id body hstart
    · exact ⟨chain, permit, sights, htold, hpending⟩
    · rw [hended] at hover
      exact absurd hover List.not_mem_nil
  · obtain ⟨more, hmore, hall⟩ := hruns quiet (Nat.le_refl _)
    rcases hall 0 task.id body (List.mem_append_left _ hstart) with hcancelled | hran
    · rw [hended] at hcancelled
      exact absurd hcancelled List.not_mem_nil
    · obtain ⟨chain, permit, sights, outcome, htold, hover⟩ := hran
      have hfree : delayed.machine.older .delay task.id < max Config.standard.pools.delayWorkers 1 := by
        have hle : delayed.machine.older .delay task.id ≤ delayed.machine.inFlight .delay :=
          List.countP_le_length
        exact Nat.lt_of_le_of_lt (hinFlight ▸ hle) (by decide)
      have hpermit := hpermits more _ hmore task.id body chain permit sights
        (by rw [hnow]; exact hstart) hfree (by rw [hnow]; exact htold)
        (by rw [hnow]; exact Or.inr ⟨_, hover⟩)
      rw [hnow] at hpermit
      rcases hpermit with rfl | ⟨rfl, -⟩
      · exact ⟨quiet, more, chain, sights, outcome, htold, hover⟩
      · -- A chain that has run had its permit.
        obtain ⟨-, hran, -⟩ := hover
        cases hran

end MenuActions.Engine
