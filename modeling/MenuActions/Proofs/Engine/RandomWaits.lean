import MenuActions.Proofs.Engine.Nesting
import MenuActions.Proofs.Schedule.Timeline
import MenuActions.Proofs.Schedule.WaitsFor

/-!
# Random choices wait for no task

However many actions run side by side, and whatever they nest, a task with a permit of the random pool
waits for no other task, and no task waits for itself through others.  A choice within a choice runs in
place, and what a delay has left to its own pool may wait for choices, but not the other way round.

`Crowded` are the crowds that an engine comes to when its host triggers actions at any time and in any
context, and replaces the backend, the registry and the draws as it likes.
-/

namespace MenuActions

open Relation Schedule

/-- A process with which the host runs an action. -/
def Executor.Triggers (config : Config) (process : ActionProcess) : Prop :=
  ∃ actor action ctx, process = Executor.execute config actor action ctx

/-- The host replaces the world; what has been dispatched stays on record. -/
def Runtime.Replaced (state later : Runtime) : Prop :=
  later.dispatches = state.dispatches

namespace Engine

/-- The crowds that an engine of a configuration comes to. -/
def Crowded (config : Config) (crowd : Crowd Runtime PoolName Outcome) : Prop :=
  ∃ world, Crowd.Reaches (Executor.Triggers config) Runtime.Replaced
    ⟨(start config world).machine, []⟩ crowd

/-- An engine on which actions are triggered one after the other comes about along a timeline. -/
theorem Reached.timeline {config : Config} {engine : Engine} (h : Reached config engine) :
    ∃ world log, Crowd.Timeline (Executor.Triggers config) Runtime.Replaced
      ⟨(Engine.start config world).machine, []⟩ log ⟨engine.machine, []⟩ := by
  induction h with
  | start world => exact ⟨world, [], .nil⟩
  | @trigger engine actor action ctx hengine hctx ih =>
      obtain ⟨world, log, hlog⟩ := ih
      obtain ⟨hconfig, horderly⟩ := hengine.orderly
      have hcompletes := (answers_execute horderly actor action hctx).completes
      obtain ⟨more, hmore⟩ := Crowd.timeline_run _ _ hcompletes
      have hbegun := hlog.snoc (.begun ⟨actor, action, ctx, rfl⟩)
      rw [execute, runProcess_snd, hconfig]
      exact ⟨world, _, hbegun.trans hmore⟩
  | @later engine _ _ hlater ih =>
      obtain ⟨world, log, hlog⟩ := ih
      have hmore : ∀ {machine : ActionMachine}, engine.machine.Punctually machine → ∃ world log,
          Crowd.Timeline (Executor.Triggers config) Runtime.Replaced
            ⟨(Engine.start config world).machine, []⟩ log ⟨machine, []⟩ := by
        intro machine hpunctually
        obtain ⟨more, hmore⟩ := Crowd.timeline_of_punctually hpunctually
        exact ⟨world, _, hlog.trans hmore⟩
      cases hlater with
      | settle => exact hmore (Machine.punctually_drive _ _ _)
      | sleep ms => exact hmore (Machine.punctually_advanceTo _ _)
      | interrupt => exact hmore (.single .interrupts trivial)
      | shutdown => exact hmore (Machine.punctually_shutdown _ _ _)
      | world world' => exact ⟨world, _, hlog.snoc (.host rfl)⟩

/-- The engines on which actions are triggered one after the other are among the crowds. -/
theorem Reached.crowded {config : Config} {engine : Engine} (h : Reached config engine) :
    Crowded config ⟨engine.machine, []⟩ := by
  obtain ⟨world, log, hlog⟩ := h.timeline
  exact ⟨world, hlog.reaches⟩

/-- Every crowd of an engine is orderly: on the random pool no task waits for another one, and
elsewhere tasks wait only for those on the random pool. -/
theorem Crowded.orderly {config : Config} {crowd : Crowd Runtime PoolName Outcome}
    (h : Crowded config crowd) :
    crowd.Orderly (fun _ => True) PoolName.rank (Executor.levelOn false) := by
  obtain ⟨world, hreaches⟩ := h
  refine Crowd.Orderly.reaches ⟨.start trivial fun pool => ?_, fun _ hp => absurd hp List.not_mem_nil⟩
    ?_ ?_ hreaches
  · cases pool with
    | random => exact Nat.le_max_right _ _
    | delay => exact Nat.le_max_right _ _
  · rintro _ ⟨actor, action, ctx, rfl⟩ state
    exact Executor.keeps_dispatch_levels config _ none false actor action ctx state
  · intro state later hreplaced _
    exact ⟨⟨[], by rw [hreplaced, List.append_nil]⟩, trivial⟩

/-- Random choices wait for no task.  Whatever actions run side by side on an engine, a task with a
permit of the random pool waits neither for a permit nor for a task of either pool that has not ended;
it goes on by itself when time passes.  And no task of either pool waits for itself, directly or through
others. -/
theorem random_waits_for_none {config : Config} {crowd : Crowd Runtime PoolName Outcome}
    (h : Crowded config crowd) :
    (∀ task ∈ crowd.machine.tasks, task.pool = .random → task.wait.queued = false →
      (∀ other, ¬crowd.machine.WaitsFor task other) ∧ (crowd.machine.wakeTime task).isSome) ∧
    ∀ task, ¬TransGen crowd.machine.WaitsFor task task := by
  have horderly := h.orderly.machine
  refine ⟨fun task htask hpool hholds => ?_, horderly.acyclic⟩
  have hrank : PoolName.rank task.pool = 0 := by
    rw [hpool]
    rfl
  refine ⟨horderly.not_waitsFor hrank hholds, horderly.isSome_wakeTime htask hholds ?_⟩
  intro other _
  rw [hrank]
  exact Nat.zero_le _

/-- An engine on which a choice that a delayed action has drawn has sent the first of two messages. -/
def choosing : Engine :=
  ((start Config.standard ⟨Backend.empty, Registry.builtin Config.standard, []⟩).executeRaw
    ⟨"1", "Ada", none⟩ "delay:5:random:[ \"message:[ \\\"a\\\", \\\"b\\\" ]\" ]" .empty).2.sleep 5

/-- The delay waits for the choice, the choice waits for no task, and no task waits for itself. -/
theorem random_waits_for_none_choosing :
    Crowded Config.standard ⟨choosing.machine, []⟩ ∧
      (∃ task ∈ choosing.machine.tasks, task.pool = .random ∧ task.wait.queued = false ∧
        (∃ delay, choosing.machine.WaitsFor delay task) ∧
        (∀ other, ¬choosing.machine.WaitsFor task other) ∧
        (choosing.machine.wakeTime task).isSome) ∧
      ∀ task, ¬TransGen choosing.machine.WaitsFor task task := by
  have hreached : Reached Config.standard choosing :=
    .later (.trigger _ _ _ (.start _) rfl) (.sleep _ 5)
  obtain ⟨hnone, hacyclic⟩ := random_waits_for_none hreached.crowded
  have hslept : choosing.machine = _ := Machine.advanceTo_eq_steps 3 (by decide +kernel)
  have hfound : choosing.machine.tasks.any (fun task =>
      decide (task.pool = .random ∧ task.wait.queued = false) &&
        choosing.machine.tasks.any fun delay => delay.wait.needs task.id) = true := by
    rw [hslept]
    decide +kernel
  obtain ⟨task, htask, hfound⟩ := List.any_eq_true.mp hfound
  obtain ⟨hholds, hneeded⟩ := Bool.and_eq_true_iff.mp hfound
  obtain ⟨hpool, hqueued⟩ := of_decide_eq_true hholds
  obtain ⟨delay, hdelay, hneeds⟩ := List.any_eq_true.mp hneeded
  exact ⟨hreached.crowded, ⟨task, htask, hpool, hqueued, ⟨delay, .of_needs hdelay htask hneeds⟩,
    hnone task htask hpool hqueued⟩, hacyclic⟩

end Engine

end MenuActions
