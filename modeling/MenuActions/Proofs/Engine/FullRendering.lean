import MenuActions.Engine
import MenuActions.Proofs.Engine.RandomWaits
import MenuActions.Proofs.Executor.DispatchRenders

/-!
# Every result can be rendered in full

As long as the host adds no handler of its own, every result that an engine gives has a message of the
engine's and a replacement for every token of its English text, so that the builtin catalog leaves no
token unfilled in any locale.  This holds on every machine that actions running side by side lead to,
whatever the services refuse, and after interrupts and shutdowns too.

`results_renderInFull` puts together what a dispatch delivers (`renders_dispatch`), what a machine
makes of it (`Machine.Delivers.run`, `Crowd.Delivers.reaches`) and what the engine makes of the results
of several actions (`renderable_definitionResult`).
-/

namespace MenuActions

open Schedule

/-- A process with which the host runs an action, at the depth of a context or one level below it. -/
def Executor.Called (config : Config) (process : ActionProcess) : Prop :=
  Triggers config process ∨ ∃ actor raw ctx, process = executeNested config actor raw ctx

theorem Executor.Called.renders {config : Config} {process : ActionProcess}
    (h : Called config process) : Renders process := by
  rcases h with ⟨actor, action, ctx, rfl⟩ | ⟨actor, raw, ctx, rfl⟩
  · exact renders_execute config actor action ctx
  · exact renders_executeNested config actor raw ctx

/-- The host replaces the world, but it adds no handler. -/
def Runtime.Unextended (_ later : Runtime) : Prop :=
  later.registry.Unextended

namespace Engine

/-- An engine with none but renderable results to come, and no handler that the host has added. -/
def Renders (engine : Engine) : Prop :=
  engine.machine.Delivers (fun state => state.registry.Unextended) Outcome.Renderable

variable {engine : Engine}

theorem Renders.runProcess (h : engine.Renders) {process : ActionProcess}
    (hprocess : Executor.Renders process) :
    (engine.runProcess process).1.Renderable ∧ (engine.runProcess process).2.Renders := by
  obtain ⟨hresult, hafter⟩ := Machine.Delivers.run hprocess engine.machine h
  unfold Engine.runProcess
  split
  · rename_i outcome machine hrun
    rw [hrun] at hresult hafter
    exact ⟨hresult outcome rfl, hafter⟩
  · rename_i machine hrun
    rw [hrun] at hafter
    exact ⟨Outcome.renderable_error (.panicked "action" "unknown panic"), hafter⟩

theorem Renders.execute (h : engine.Renders) (actor : Actor) (action : Action) (ctx : Context) :
    (engine.execute actor action ctx).1.Renderable ∧ (engine.execute actor action ctx).2.Renders :=
  h.runProcess (Executor.renders_execute engine.config actor action ctx)

theorem Renders.executeActions (h : engine.Renders) (actor : Actor) (actions : List Action)
    (ctx : Context) : ∀ result ∈ (engine.executeActions actor actions ctx).1, result.Renderable := by
  induction actions generalizing engine with
  | nil => exact fun _ hresult => absurd hresult List.not_mem_nil
  | cons action actions ih =>
      obtain ⟨hfirst, hafter⟩ := h.execute actor action ctx
      exact List.forall_mem_cons.mpr ⟨hfirst, ih hafter⟩

/-- A definition gives the result of its only action, an aggregate, or that there is nothing to run. -/
theorem renderable_definitionResult {results : List ActionResult}
    (h : ∀ result ∈ results, result.Renderable) : (definitionResult results).Renderable := by
  unfold definitionResult
  split
  · exact ActionResult.renderable_of MessageKey.definitionEmpty [] (by simp [MessageKey.asked]) rfl
      (by simp)
  · exact h _ List.mem_cons_self
  · exact ActionResult.renderable_aggregate _ _ _

/-- Every result can be rendered in full.  Whatever actions have run side by side on an engine to which
the host adds no handler, whatever it has made of the services and of the draws in between, and whether
the engine was interrupted or shut down: a process in the foreground that has come to its end has such
a result, and so has every action, raw action, nested action and definition that is run next, in any
context. -/
theorem results_renderInFull {config : Config} {world : World} {crowd : Crowd Runtime PoolName Outcome}
    (hworld : world.registry.Unextended)
    (h : Crowd.Reaches (Executor.Called config) Runtime.Unextended ⟨(start config world).machine, []⟩
      crowd) :
    (∀ outcome, .done outcome ∈ crowd.callers → outcome.result.RendersInFull) ∧
    ∀ (actor : Actor) (ctx : Context),
      let engine : Engine := ⟨config, crowd.machine⟩
      (∀ action, (engine.execute actor action ctx).1.RendersInFull) ∧
      (∀ raw, (engine.executeRaw actor raw ctx).1.RendersInFull) ∧
      (∀ raw, (engine.executeNested actor raw ctx).1.RendersInFull) ∧
      (∀ actions, ∀ result ∈ (engine.executeActions actor actions ctx).1, result.RendersInFull) ∧
      ∀ definition, (engine.executeDefinition actor definition ctx).1.RendersInFull := by
  have hstart : (start config world).Renders := Machine.Delivers.start (poolsOf config) hworld
  have hbegin : Crowd.Delivers (fun state => state.registry.Unextended) Outcome.Renderable
      ⟨(start config world).machine, []⟩ := ⟨hstart, fun _ hp => absurd hp List.not_mem_nil⟩
  have hcrowd := hbegin.reaches (fun _ hp => hp.renders) (fun _ _ hlater _ => hlater) h
  refine ⟨fun outcome hdone => (hcrowd.callers _ hdone).rendersInFull, fun actor ctx => ?_⟩
  intro engine
  have hengine : engine.Renders := hcrowd.machine
  have hactions := fun actions => hengine.executeActions actor actions ctx
  refine ⟨fun action => (hengine.execute actor action ctx).1.rendersInFull,
    fun raw => (hengine.execute actor _ ctx).1.rendersInFull,
    fun raw =>
      (hengine.runProcess (Executor.renders_executeNested config actor raw ctx)).1.rendersInFull,
    fun actions result hresult => (hactions actions result hresult).rendersInFull, fun definition => ?_⟩
  exact (renderable_definitionResult (hactions definition.actions)).rendersInFull

/-- One of two commands is refused, and the English text of the aggregate stands in for a German one. -/
theorem results_renderInFull_refused :
    let config := { Config.standard with pacing := .zero }
    let world : World := ⟨{ Backend.empty with refusedCommands := ["op"] }, Registry.builtin config, []⟩
    let result := ((start config world).executeRaw ⟨"1", "Ada", none⟩
      "console:[ \"say Hi\", \"op Ada\" ]" .empty).1
    world.registry.Unextended ∧ result.RendersInFull ∧
      Catalog.builtin.renderResult result (some "de_DE") = "1 of 2 actions completed" := by
  intro config world result
  have hworld : world.registry.Unextended := Registry.unextended_builtin config
  have hengine := (@results_renderInFull config world _ hworld .refl).2 ⟨"1", "Ada", none⟩ .empty
  exact ⟨hworld, hengine.2.1 _, by decide +kernel⟩

end Engine

end MenuActions
