import MenuActions.Proofs.Engine.RandomWaits
import MenuActions.Proofs.Executor.DispatchTells
import MenuActions.Proofs.Schedule.Chronicle

/-!
# Chronicles of an engine

Every crowd that an engine comes to has a chronicle, and what can be told of value lists is told of
everyone in it.  While the host changes nothing, neither does anything else that no process changes
(`Crowded.same`).
-/

namespace MenuActions

open Schedule

/-- A story that can be told of value lists can be told of every action that is triggered. -/
theorem Executor.Triggers.tells {config : Config} {process : ActionProcess}
    (h : Triggers config process) {story : Story Runtime PoolName Outcome} (hstory : Admits story) :
    process.Tells story := by
  obtain ⟨actor, action, ctx, rfl⟩ := h
  exact tells_dispatch hstory config _ none false actor action ctx

namespace Engine

variable {config : Config} {crowd later : Crowd Runtime PoolName Outcome}

/-- Every action is answered, whatever else was triggered. -/
theorem Crowded.answers (h : Crowded config crowd) (actor : Actor) (action : Action) (ctx : Context) :
    crowd.machine.Answers (fun _ => True) PoolName.rank (Executor.execute config actor action ctx) :=
  Machine.Orderly.run (Executor.keeps_dispatch_levels config (Executor.levelsBelow config ctx) none false
    actor action ctx crowd.machine.world) crowd.machine h.orderly.machine le_rfl

/-- A run of an action on an engine is a course of its crowd. -/
theorem Crowded.reaches_execute {engine : Engine} (h : Crowded engine.config ⟨engine.machine, []⟩)
    (changes : Runtime → Runtime → Prop) (actor : Actor) (action : Action) (ctx : Context) :
    Crowd.Reaches (Executor.Triggers engine.config) changes ⟨engine.machine, []⟩
      ⟨(engine.execute actor action ctx).2.machine, []⟩ := by
  rw [execute, runProcess_snd]
  exact .head (.begun ⟨actor, action, ctx, rfl⟩)
    (Crowd.reaches_run (h.answers actor action ctx).completes)

/-- While the host changes nothing, what no process changes is the same. -/
theorem Crowded.same {α : Type} {f : Runtime → α} (h : Crowded config crowd)
    (hf : Executor.Admits (.every fun before after => f after = f before))
    (hreaches : Crowd.Reaches (Executor.Triggers config) (fun _ _ => False) crowd later) :
    f later.machine.world = f crowd.machine.world := by
  obtain ⟨world, hstart⟩ := h
  obtain ⟨chronicle, hchronicle, -⟩ := Chronicle.exists_chronicle rfl hstart
  obtain ⟨after, hcontinues, hafter⟩ := hchronicle.reaches hreaches
  obtain ⟨new, hnew, hhost⟩ := hcontinues.entries
  -- What is new in the chronicle leads from the world of the one crowd to that of the other.
  obtain ⟨middle, hold, hleads⟩ : ∃ middle, Leads _ (chronicle.entries.map Prod.snd) middle ∧
      Leads middle (new.map Prod.snd) later.machine.world := by
    rw [← leads_append, ← List.map_append, ← hnew]
    exact hafter.accounts.leads
  obtain rfl := hold.unique hchronicle.accounts.leads
  refine hleads.same fun before after hmem => ?_
  obtain ⟨⟨owner, deed⟩, hentry, rfl⟩ := List.mem_map.mp hmem
  refine hafter.accounts.every (fun _ hp => hp.tells hf) (hnew ▸ List.mem_append_right _ hentry) ?_
  rintro rfl
  obtain ⟨_, _, _, hnever⟩ := hhost _ hentry
  exact hnever.elim

end Engine

end MenuActions
