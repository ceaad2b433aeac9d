import MenuActions.Engine
import MenuActions.Proofs.Executor.OrderlyDispatch
import MenuActions.Proofs.Schedule.Exhaustion
import MenuActions.Proofs.Schedule.Progress

/-!
# Bounded nesting

A placeholder may stand for the very action in which it occurs, so what an action nests need not be
smaller than the action.  Still every handler runs at a depth within the limit of the configuration,
a trigger is answered, and what it has started comes to an end.

`Reached` are the engines that actions triggered from outside and the operations in between lead to,
and `Later` is one such operation; it may replace the backend, the registry and the draws by any
others.
-/

namespace MenuActions.Engine

open Relation Schedule

/-- The world of an engine is replaced; what has been dispatched stays on record. -/
def withWorld (engine : Engine) (world : World) : Engine :=
  { engine with machine := { engine.machine with world := ⟨world, engine.dispatches⟩ } }

/-- How many tasks have been started on the pools. -/
def started (engine : Engine) : Nat :=
  engine.machine.nextId

/-- An operation that triggers no action. -/
inductive Later : Engine → Engine → Prop
  | settle (engine : Engine) : Later engine engine.settle
  | sleep (engine : Engine) (ms : Nat) : Later engine (engine.sleep ms)
  | interrupt (engine : Engine) : Later engine engine.interrupt
  | shutdown (engine : Engine) : Later engine engine.shutdown.2
  | world (engine : Engine) (world : World) : Later engine (engine.withWorld world)

/-- The engines of a configuration on which actions have been triggered from outside, at depth
zero. -/
inductive Reached (config : Config) : Engine → Prop
  | start (world : World) : Reached config (start config world)
  | trigger {engine : Engine} (actor : Actor) (action : Action) (ctx : Context) :
      Reached config engine → ctx.depth = 0 → Reached config (engine.execute actor action ctx).2
  | later {engine after : Engine} :
      Reached config engine → Later engine after → Reached config after

/-- The machine of an engine is orderly for the limit of a configuration. -/
def Orderly (config : Config) (machine : ActionMachine) : Prop :=
  machine.Orderly (fun state => Dispatch.Forest config.maxNestingDepth state.dispatches)
    PoolName.rank none

theorem orderly_start (config : Config) (world : World) :
    Orderly config (start config world).machine := by
  refine Machine.Orderly.start Dispatch.Forest.nil fun pool => ?_
  cases pool with
  | random => exact Nat.le_max_right _ _
  | delay => exact Nat.le_max_right _ _

/-- An action at depth zero is answered on an orderly machine. -/
theorem answers_execute {config : Config} {machine : ActionMachine} (h : Orderly config machine)
    (actor : Actor) (action : Action) {ctx : Context} (hctx : ctx.depth = 0) :
    machine.Answers (fun state => Dispatch.Forest config.maxNestingDepth state.dispatches)
      PoolName.rank (Executor.execute config actor action ctx) := by
  have hdepth : ctx.depth ≤ config.maxNestingDepth := by omega
  exact Machine.Orderly.run
    (Executor.keeps_dispatch config none false actor action ctx machine.world hdepth hctx) machine h
    le_rfl

theorem runProcess_snd (engine : Engine) (process : ActionProcess) :
    (engine.runProcess process).2 = { engine with machine := (engine.machine.run process).2 } := by
  unfold runProcess
  split
  · rename_i hrun
    rw [hrun]
  · rename_i hrun
    rw [hrun]

/-- An operation keeps the configuration, leads from an orderly machine to an orderly one, and keeps
what is on record. -/
theorem Later.orderly {config : Config} {engine after : Engine} (h : Later engine after)
    (horderly : Orderly config engine.machine) :
    after.config = engine.config ∧ Orderly config after.machine ∧
      engine.dispatches <+: after.dispatches := by
  cases h with
  | settle =>
      have hafter := Machine.Orderly.settle horderly
      exact ⟨rfl, hafter.orderly, hafter.onward.world⟩
  | sleep ms =>
      have hafter := Machine.Orderly.advanceTo horderly (engine.now + ms)
      exact ⟨rfl, hafter.orderly, hafter.onward.world⟩
  | interrupt =>
      exact ⟨rfl, Machine.Orderly.raiseInterrupt horderly,
        (Machine.onward_raiseInterrupt engine.machine).world⟩
  | shutdown =>
      have hafter := Machine.Orderly.shutdown horderly [.random, .delay]
        engine.config.pools.shutdownTimeoutMs
      exact ⟨rfl, hafter.orderly, hafter.onward.world⟩
  | world world =>
      exact ⟨rfl, Machine.Orderly.withWorld horderly (List.prefix_rfl) horderly.world,
        List.prefix_rfl⟩

/-- Nothing has been dispatched and no task has been started or ended between two engines. -/
structure Unchanged (engine after : Engine) : Prop where
  waits : after.machine.waits = engine.machine.waits
  dispatches : after.dispatches = engine.dispatches
  started : after.started = engine.started

theorem Unchanged.trans {engine after last : Engine} (h : Unchanged engine after)
    (h' : Unchanged after last) : Unchanged engine last :=
  ⟨h'.waits.trans h.waits, h'.dispatches.trans h.dispatches, h'.started.trans h.started⟩

/-- Any number of operations do so too. -/
theorem orderly_of_later {config : Config} {engine later : Engine}
    (h : ReflTransGen Later engine later) (horderly : Orderly config engine.machine) :
    Orderly config later.machine ∧ engine.dispatches <+: later.dispatches := by
  induction h with
  | refl => exact ⟨horderly, List.prefix_rfl⟩
  | tail _ hstep ih =>
      obtain ⟨_, hnext, hmore⟩ := hstep.orderly ih.1
      exact ⟨hnext, ih.2.trans hmore⟩

/-- An operation lets waits give way to later ones, or nothing happens. -/
theorem Later.subsides {engine after : Engine} (h : Later engine after) :
    TransGen (Replaces Wait.After) after.machine.waits engine.machine.waits ∨
      Unchanged engine after := by
  have hmachine : ∀ machine : ActionMachine, engine.machine.Subsides machine →
      TransGen (Replaces Wait.After) machine.waits engine.machine.waits ∨
        Unchanged engine { engine with machine := machine } := by
    rintro machine (hless | hstill)
    · exact Or.inl hless
    · exact Or.inr ⟨hstill.waits, congrArg Runtime.dispatches hstill.world, hstill.nextId⟩
  cases h with
  | settle => exact hmachine _ (Machine.Subsides.drive _ _ _)
  | sleep ms => exact hmachine _ (Machine.Subsides.advanceTo _ _)
  | interrupt => exact hmachine _ (Machine.Subsides.raiseInterrupt _)
  | shutdown => exact hmachine _ (Machine.Subsides.shutdown _ _ _)
  | world world => exact Or.inr ⟨rfl, rfl, rfl⟩

/-- An engine that is reached has its configuration and an orderly machine. -/
theorem Reached.orderly {config : Config} {engine : Engine} (h : Reached config engine) :
    engine.config = config ∧ Orderly config engine.machine := by
  induction h with
  | start world => exact ⟨rfl, orderly_start config world⟩
  | @trigger engine actor action ctx _ hctx ih =>
      have hafter := (answers_execute ih.2 actor action hctx).follows.orderly
      rw [execute, runProcess_snd]
      refine ⟨ih.1, ?_⟩
      rw [ih.1]
      exact hafter
  | later _ hlater ih =>
      obtain ⟨hconfig, hafter, _⟩ := hlater.orderly ih.2
      exact ⟨hconfig.trans ih.1, hafter⟩

/-- Along operations that trigger nothing, handlers are run and tasks are started only finitely
often. -/
theorem eventually_quiet {run : Nat → Engine} (hrun : ∀ n, Later (run n) (run (n + 1))) :
    ∃ n, ∀ k, n ≤ k →
      (run k).dispatches = (run n).dispatches ∧ (run k).started = (run n).started := by
  obtain ⟨n, hn⟩ := eventually_same (wellFounded_replaces wellFounded_after).transGen
    (fun engine : Engine => engine.machine.waits) Unchanged (fun _ => ⟨rfl, rfl, rfl⟩)
    (fun _ _ _ h h' => h.trans h') (fun _ _ h => h.waits) fun n => (hrun n).subsides
  exact ⟨n, fun k hk => ⟨(hn k hk).dispatches, (hn k hk).started⟩⟩

/-- A raw action at depth zero is answered on an engine that is reached, and leaves it orderly. -/
theorem executeRaw_answers {config : Config} {engine : Engine} (h : Reached config engine)
    (actor : Actor) (raw : String) {ctx : Context} (hctx : ctx.depth = 0) :
    engine.machine.Answers
        (fun state => Dispatch.Forest config.maxNestingDepth state.dispatches) PoolName.rank
        (Executor.executeRaw engine.config actor raw ctx) ∧
      Orderly config (engine.executeRaw actor raw ctx).2.machine ∧
      engine.dispatches <+: (engine.executeRaw actor raw ctx).2.dispatches := by
  obtain ⟨hconfig, horderly⟩ := h.orderly
  have hanswers : engine.machine.Answers
      (fun state => Dispatch.Forest config.maxNestingDepth state.dispatches) PoolName.rank
      (Executor.executeRaw engine.config actor raw ctx) := by
    rw [hconfig]
    exact answers_execute horderly actor (Action.read config.defaultType raw) hctx
  rw [executeRaw, runProcess_snd]
  exact ⟨hanswers, hanswers.follows.orderly, hanswers.follows.onward.world⟩

/-- Bounded nesting and termination.  On every engine that can be reached, a raw action at depth zero
runs to its end: the process is answered, and every task that it waits for has ended by then.  At any
later time every handler that has been run was run at a depth within the limit, each in its place in
a forest whose height is within the limit too.  However the operations go on, handlers are run and
tasks are started only finitely often; and if time passes, no task is left. -/
theorem executeRaw_nesting {config : Config} {engine : Engine} (h : Reached config engine)
    (actor : Actor) (raw : String) {ctx : Context} (hctx : ctx.depth = 0) :
    let process := Executor.executeRaw engine.config actor raw ctx
    let after := (engine.executeRaw actor raw ctx).2
    (engine.machine.Completes process ∧ (engine.machine.run process).1.isSome) ∧
    (∀ later, ReflTransGen Later after later →
      engine.dispatches <+: later.dispatches ∧
      (∀ dispatch ∈ later.dispatches, dispatch.depth ≤ config.maxNestingDepth) ∧
      Dispatch.Forest config.maxNestingDepth later.dispatches ∧
      ∀ path, Dispatch.Nesting later.dispatches path →
        path.length ≤ config.maxNestingDepth + 1) ∧
    (∀ run : Nat → Engine, run 0 = after → (∀ n, Later (run n) (run (n + 1))) →
      ∃ n, ∀ k, n ≤ k →
        (run k).dispatches = (run n).dispatches ∧ (run k).started = (run n).started) ∧
    ∃ quiet, ∀ ms, quiet ≤ ms → (after.sleep ms).machine.tasks = [] := by
  intro process after
  obtain ⟨hanswers, hafter, hrecord⟩ := executeRaw_answers h actor raw hctx
  refine ⟨⟨hanswers.completes, hanswers.answered⟩, ?_, ?_, ?_⟩
  · intro later hlater
    obtain ⟨horderly, hmore⟩ := orderly_of_later hlater hafter
    have hforest : Dispatch.Forest config.maxNestingDepth later.dispatches := horderly.world
    exact ⟨hrecord.trans hmore, hforest.depth_le, hforest, fun path hpath => hforest.length_le hpath⟩
  · intro run _ hrun
    exact eventually_quiet hrun
  · obtain ⟨quiet, hquiet⟩ := Machine.Orderly.comes_to_rest hafter
    refine ⟨quiet, fun ms hms => hquiet _ ?_⟩
    exact Nat.le_trans hms (Nat.le_add_left ms after.now)

/-- An engine on which the placeholder `again` stands for a delayed action that holds it. -/
def selfReferring : Engine :=
  start Config.standard
    ⟨{ Backend.empty with placeholders := [("again", "delay:5:\x7bagain\x7d")] },
      Registry.builtin Config.standard, []⟩

/-- That engine after the action has been triggered. -/
def repeating : Engine :=
  (selfReferring.executeRaw ⟨"1", "Ada", none⟩ "delay:5:\x7bagain\x7d" .empty).2

/-- The action runs once at every depth up to the limit and starts a task each time, and then no task is
left. -/
theorem executeRaw_nesting_selfReferring :
    let limit := Config.standard.maxNestingDepth
    Context.empty.depth = 0 ∧ Reached Config.standard selfReferring ∧
      (repeating.sleep 40).dispatches.map Dispatch.depth = List.range (limit + 1) ∧
      (repeating.sleep 40).started = limit + 1 ∧
      (∀ later, ReflTransGen Later repeating later →
        ∀ dispatch ∈ later.dispatches, dispatch.depth ≤ limit) ∧
      ∃ quiet, ∀ ms, quiet ≤ ms → (repeating.sleep ms).machine.tasks = [] := by
  intro limit
  have hreached : Reached Config.standard selfReferring := .start _
  obtain ⟨-, hbounded, -, hrest⟩ := executeRaw_nesting hreached ⟨"1", "Ada", none⟩
    "delay:5:\x7bagain\x7d" (show Context.empty.depth = 0 from rfl)
  -- The loop that lets time pass does not compute; seventeen steps lead to where it stops.
  have hslept : (repeating.sleep 40).machine = _ :=
    Machine.advanceTo_eq_steps 17 (by decide +kernel)
  obtain ⟨hdepths, hstarted⟩ :
      (repeating.sleep 40).machine.world.dispatches.map Dispatch.depth = List.range 9 ∧
        (repeating.sleep 40).machine.nextId = 9 := by
    rw [hslept]
    decide +kernel
  exact ⟨rfl, hreached, hdepths, hstarted, fun later hlater => (hbounded later hlater).2.1, hrest⟩

end MenuActions.Engine
