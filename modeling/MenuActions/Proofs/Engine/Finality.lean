import MenuActions.Engine
import MenuActions.Proofs.Schedule.RetiredPools

/-!
# A shutdown is final

Once a shutdown has returned, no task of either pool is left and none is ever started again, so nothing
that was left to a pool calls the backend any more.  An action that hands its work to a pool is answered
with the failure that the pool is shut down, and does not call the backend either.

`target?` is the pool to which an action hands its work when it is dispatched off the random pool, which
every dispatch is once that pool has no task.
-/

namespace MenuActions

open Grammar Schedule

namespace Grammar.Weighted

/-- Whether one of some entries can be drawn: there are some, and the sum of their weights is finite and
above zero.  Otherwise none of them is eligible, and the choice fails without a draw. -/
def drawable (entries : List Weighted) : Bool :=
  let total := entries.foldl (fun sum entry => sum + entry.weight) 0.0
  !entries.isEmpty && (total > 0.0 && total.isFinite)

theorem isSome_pick {R α : Type} [Add R] [LE R] [DecidableLE R] (share : α → R) (draw zero : R)
    (entries : List α) : (pick share draw zero entries).isSome = !entries.isEmpty := by
  cases entries with
  | nil => rfl
  | cons entry entries =>
      rw [pick, Option.isSome_or, List.getLast?_cons]
      simp

/-- Whether an entry is drawn does not depend on where the draw falls. -/
theorem isSome_select (entries : List Weighted) (position : Float) :
    (select entries position).isSome = drawable entries := by
  unfold select choose drawable
  dsimp only
  split
  · rename_i htotal
    rw [isSome_pick, htotal, Bool.and_true]
  · rename_i htotal
    rw [Bool.eq_false_iff.mpr htotal, Bool.and_false]
    rfl

end Grammar.Weighted

namespace Executor

/-- The pool to which the work of an action is handed: that of random choices for a draw among entries of
which one can be drawn, and that of delays for a delay that is not zero and has chained actions. -/
def target? (config : Config) (world : World) (actor : Actor) (action : Action) (ctx : Context) :
    Option PoolName :=
  let data := (fill world actor ctx action).data
  match world.registry.lookup action.type with
  | some .random =>
      match entries config world.registry data with
      | .ok candidates => if Weighted.drawable candidates then some .random else none
      | .error _ => none
  | some (.delay maxMs) =>
      match Delay.read maxMs data.toList with
      | .ok delay => if delay.ms ≠ 0 ∧ delay.chained ≠ [] then some .delay else none
      | .error _ => none
  | _ => none

/-- A process runs in one go to the error that a pool is shut down, and leaves the machine as it is but
for the world, whose backend stays the same. -/
def Refused (pool : PoolName) (process : ActionProcess)
    (machine : ActionMachine) : Prop :=
  ∃ state : Runtime, state.backend = machine.world.backend ∧
    machine.run process = (some (.error (.poolShutdown pool.text)), { machine with world := state })

variable {config : Config} {actor : Actor} {ctx : Context} {machine : ActionMachine}

/-- A draw off the random pool is refused when that pool is closed. -/
theorem refused_runRandom {nest : String → ActionProcess} {world : World} {data : String}
    {candidates : List Weighted} (hentries : entries config world.registry data = .ok candidates)
    (hdrawable : Weighted.drawable candidates = true)
    (hclosed : (machine.pools .random).closed = true) :
    Refused .random (runRandom config nest false world data) machine := by
  obtain ⟨chosen, hchosen⟩ := Option.isSome_iff_exists.mp
    ((Weighted.isSome_select candidates (machine.world.draws.headD 0.0)).trans hdrawable)
  let drawn : ActionMachine :=
    { machine with world := { machine.world with draws := machine.world.draws.tail } }
  refine ⟨drawn.world, rfl, ?_⟩
  unfold runRandom
  rw [hentries]
  simp only [Machine.run, hchosen]
  show Machine.run (.spawn .random _ _) drawn = _
  rw [Machine.run, Machine.spawn_of_closed (m := drawn) hclosed]
  rfl

/-- A delay that is not zero is refused when the pool of delays is closed. -/
theorem refused_runDelay {nest later : String → ActionProcess} {maxMs : Nat} {data : String}
    {delay : Delay} (hread : Delay.read maxMs data.toList = .ok delay) (hms : delay.ms ≠ 0)
    (hchained : delay.chained ≠ []) (hclosed : (machine.pools .delay).closed = true) :
    Refused .delay (runDelay nest later maxMs data) machine := by
  refine ⟨machine.world, rfl, ?_⟩
  unfold runDelay
  rw [hread]
  simp only [if_neg hms, List.isEmpty_iff, if_neg hchained]
  rw [Machine.run, Machine.spawn_of_closed hclosed]
  rfl

/-- The handler of an action whose work would be handed to a closed pool is refused. -/
theorem refused_runHandler {world : World} {nest : Bool → String → ActionProcess} {action : Action}
    {pool : PoolName} (htarget : target? config world actor action ctx = some pool)
    (hclosed : (machine.pools pool).closed = true) :
    ∃ handler, world.registry.lookup action.type = some handler ∧
      Refused pool (runHandler config nest false world actor ctx (fill world actor ctx action).data
        handler) machine := by
  unfold target? at htarget
  dsimp only at htarget
  split at htarget
  · rename_i hlookup
    split at htarget
    · rename_i candidates hentries
      split at htarget
      · rename_i hdrawable
        obtain rfl := Option.some.inj htarget
        exact ⟨_, hlookup, refused_runRandom hentries hdrawable hclosed⟩
      · exact absurd htarget (by simp)
    · exact absurd htarget (by simp)
  · rename_i maxMs hlookup
    split at htarget
    · rename_i delay hread
      split at htarget
      · rename_i hdelay
        obtain rfl := Option.some.inj htarget
        exact ⟨_, hlookup, refused_runDelay hread hdelay.1 hdelay.2 hclosed⟩
      · exact absurd htarget (by simp)
    · exact absurd htarget (by simp)
  · exact absurd htarget (by simp)

/-- A process gives the failure that a pool is shut down, and leaves the backend as it is. -/
def Rejected (pool : PoolName) (process : ActionProcess) (machine : ActionMachine) : Prop :=
  (machine.run process).1 = some (.ok (.ofError (.poolShutdown pool.text))) ∧
    (machine.run process).2.world.backend = machine.world.backend

theorem rejected_dispatchWith {nest : Nat → Bool → String → ActionProcess} (parent : Option Nat)
    {action : Action} {pool : PoolName}
    (htarget : target? config machine.world.toWorld actor action ctx = some pool)
    (hclosed : (machine.pools pool).closed = true) :
    Rejected pool (dispatchWith config nest parent false actor action ctx) machine := by
  let noted : ActionMachine :=
    { machine with world := noteDispatch actor action ctx parent machine.world }
  have hnoted : noted.world.backend = machine.world.backend := by
    show (noteDispatch _ _ _ _ _).backend = _
    unfold noteDispatch
    split <;> rfl
  have hnotedClosed : (noted.pools pool).closed = true := hclosed
  obtain ⟨handler, hlookup, state, hstate, hrun⟩ := refused_runHandler htarget hnotedClosed
  -- The handler runs on the machine with the note, and what it gives becomes the result.
  have hresult : machine.run (dispatchWith config nest parent false actor action ctx) =
      (some (.ok (.ofError (.poolShutdown pool.text))), { noted with world := state }) := by
    have hbound := Machine.run_bind (runHandler config (nest machine.world.dispatches.length) false
      machine.world.toWorld actor ctx (fill machine.world.toWorld actor ctx action).data handler)
      (fun outcome => answer outcome.result) noted
    rw [hrun] at hbound
    rw [dispatchWith, Machine.run]
    simp only [hlookup]
    exact hbound
  rw [Rejected, hresult]
  exact ⟨rfl, hstate.trans hnoted⟩

/-- Every action whose work would be handed to a closed pool is rejected, at whatever depth it is
dispatched. -/
theorem rejected_dispatch (levels : Nat) (parent : Option Nat) {action : Action} {pool : PoolName}
    (htarget : target? config machine.world.toWorld actor action ctx = some pool)
    (hclosed : (machine.pools pool).closed = true) :
    Rejected pool (dispatch config levels parent false actor action ctx) machine := by
  cases levels with
  | zero => exact rejected_dispatchWith parent htarget hclosed
  | succ levels => exact rejected_dispatchWith parent htarget hclosed

end Executor

namespace Engine

/-- A shutdown is final.  Whenever a shutdown of an engine returns, whatever the engine was doing and
whatever has happened while the pools were being shut down, both pools have no task in flight; at any
later time they have none either, no task has gone on in between, and only what the host does changes
the world, however far time advances.  Every later dispatch of a draw or of a delay that would hand its
work to a pool gives the failure that the pool is shut down, and leaves the backend as it is. -/
theorem shutdown_final (engine : Engine) :
    (∀ pool, engine.machine.Retires pool engine.shutdown.2.machine) ∧
    ∀ returned : ActionMachine, (∀ pool, engine.machine.Retires pool returned) →
      ∀ events later, Machine.Trace Machine.Step returned events later →
        (∀ pool, later.inFlight pool = 0) ∧
        ((∀ task, .goesOn task ∉ events) ∧
          ((∀ state, .changes state ∉ events) → later.world = returned.world) ∧
          ∀ moment, (later.advanceTo moment).world = later.world) ∧
        ∀ config levels parent actor action ctx pool,
          Executor.target? config later.world.toWorld actor action ctx = some pool →
          Executor.Rejected pool
            (Executor.dispatch config levels parent false actor action ctx) later := by
  have hpools : ∀ pool, pool ∈ [PoolName.random, PoolName.delay] := by
    intro pool
    cases pool <;> decide
  refine ⟨fun pool => Machine.retires_shutdown (hpools pool) _ _, ?_⟩
  intro returned hreturned events later htrace
  have hlater := fun pool => ((hreturned pool).trace htrace).idle
  have hquiet := htrace.quiet (fun pool => (hreturned pool).idle.2) fun pool => (hreturned pool).idle.1
  refine ⟨fun pool => (hlater pool).1, ⟨hquiet.1, hquiet.2, fun moment => ?_⟩, ?_⟩
  · rw [Machine.advanceTo_of_nil (Machine.tasks_eq_nil fun pool => (hlater pool).1)]
  · intro config levels parent actor action ctx pool htarget
    exact Executor.rejected_dispatch levels parent htarget (hlater pool).2

/-- An engine on which the task of a long delay is in flight. -/
def delayed : Engine :=
  ((start Config.standard ⟨Backend.empty, Registry.builtin Config.standard, []⟩).executeRaw
    ⟨"1", "Ada", none⟩ "delay:30000:message:late" .empty).2

/-- The task is gone when a shutdown has returned, and a draw that the host dispatches then is refused,
though it has put the world back. -/
theorem shutdown_final_delayed :
    let world : World := ⟨Backend.empty, Registry.builtin Config.standard, []⟩
    let draw : Action := ⟨"random", "random \x7b - \"message:a\" \x7d"⟩
    let later : ActionMachine := { delayed.shutdown.2.machine with world := ⟨world, []⟩ }
    delayed.machine.inFlight .delay = 1 ∧ later.inFlight .delay = 0 ∧
      (later.run (Executor.execute Config.standard ⟨"1", "Ada", none⟩ draw .empty)).1 =
        some (.ok (.ofError (.poolShutdown "random"))) := by
  have hinFlight : delayed.machine.inFlight .delay = 1 := by decide +kernel
  have htarget : Executor.target? Config.standard
      ⟨Backend.empty, Registry.builtin Config.standard, []⟩ ⟨"1", "Ada", none⟩
      ⟨"random", "random \x7b - \"message:a\" \x7d"⟩ .empty = some .random := by
    decide +kernel
  intro world draw later
  obtain ⟨hretires, hfinal⟩ := shutdown_final delayed
  have hchanged : Machine.Trace Machine.Step delayed.shutdown.2.machine [.changes ⟨world, []⟩] later :=
    .single (.changes _)
  obtain ⟨hidle, _, hrefused⟩ := hfinal _ hretires _ later hchanged
  exact ⟨hinFlight, hidle .delay, (hrefused _ _ none _ _ _ .random htarget).1⟩

end Engine

end MenuActions
