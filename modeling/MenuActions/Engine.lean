import MenuActions.Catalog
import MenuActions.Definition
import MenuActions.Executor
import MenuActions.Schedule.Shutdown
import MenuActions.Text.Diagnostic

/-!
# The engine

A configuration and the machine on which its actions run. Each operation gives its answer and the
engine after it.
-/

namespace MenuActions

open Schedule

/-- The machine on which actions run. -/
abbrev ActionMachine := Machine Runtime PoolName Outcome

/-- An engine between two operations. -/
structure Engine where
  config : Config
  machine : ActionMachine

namespace Engine

/-- The pools of a configuration. -/
def poolsOf (config : Config) : PoolName → Pool
  | .random => .ofWorkers config.pools.randomWorkers
  | .delay => .ofWorkers config.pools.delayWorkers

/-- An engine at moment zero. -/
def start (config : Config) (world : World) : Engine :=
  ⟨config, Machine.start ⟨world, []⟩ (poolsOf config)⟩

/-- The backend of an engine. -/
def backend (engine : Engine) : Backend :=
  engine.machine.world.backend

/-- The registry of an engine. -/
def registry (engine : Engine) : Registry :=
  engine.machine.world.registry

/-- The handlers that have been run, oldest first. -/
def dispatches (engine : Engine) : List Dispatch :=
  engine.machine.world.dispatches

/-- The present moment. -/
def now (engine : Engine) : Nat :=
  engine.machine.now

/-- Changes the registry. -/
def updateRegistry (engine : Engine) (f : Registry → Registry) : Engine :=
  let state := { engine.machine.world with registry := f engine.registry }
  { engine with machine := { engine.machine with world := state } }

/-- Runs a process in the foreground. -/
def runProcess (engine : Engine) (process : ActionProcess) : ActionResult × Engine :=
  match engine.machine.run process with
  | (some outcome, machine) => (outcome.result, { engine with machine := machine })
  | (none, machine) =>
      (.ofError (.panicked "action" "unknown panic"), { engine with machine := machine })

/-- Runs one action. -/
def execute (engine : Engine) (actor : Actor) (action : Action) (ctx : Context) :
    ActionResult × Engine :=
  engine.runProcess (Executor.execute engine.config actor action ctx)

/-- Runs a raw action. -/
def executeRaw (engine : Engine) (actor : Actor) (raw : String) (ctx : Context) :
    ActionResult × Engine :=
  engine.runProcess (Executor.executeRaw engine.config actor raw ctx)

/-- Runs a raw action one level below a context. -/
def executeNested (engine : Engine) (actor : Actor) (raw : String) (ctx : Context) :
    ActionResult × Engine :=
  engine.runProcess (Executor.executeNested engine.config actor raw ctx)

/-- Runs actions in order, whatever becomes of each. -/
def executeActions (engine : Engine) (actor : Actor) (actions : List Action) (ctx : Context) :
    List ActionResult × Engine :=
  match actions with
  | [] => ([], engine)
  | action :: actions =>
      let (result, engine) := engine.execute actor action ctx
      let (results, engine) := engine.executeActions actor actions ctx
      (result :: results, engine)

/-- The result of a definition: that of its only action, or the aggregate of several. -/
def definitionResult : List ActionResult → ActionResult
  | [] => .failure MessageKey.definitionEmpty
  | [result] => result
  | results => .aggregate "definition" results results.length

/-- Runs a definition. -/
def executeDefinition (engine : Engine) (actor : Actor) (definition : Definition)
    (ctx : Context) : ActionResult × Engine :=
  let (results, engine) := engine.executeActions actor definition.actions ctx
  (definitionResult results, engine)

/-- Reads raw actions as a definition. -/
def readDefinition (config : Config) (raws : List String) : Definition :=
  ⟨raws.map (Action.read config.defaultType)⟩

/-- Why a raw action would not run, if it would not. -/
def validate (engine : Engine) (raw : String) : Except ActionError Unit :=
  Executor.validate engine.config engine.registry raw

/-- A text with its placeholders filled. -/
def resolve (engine : Engine) (actor : Actor) (ctx : Context) (text : String) : String :=
  Placeholder.resolve engine.backend.placeholders.get? actor ctx text

/-- Lets the tasks that are ready go on. -/
def settle (engine : Engine) : Engine :=
  { engine with machine := engine.machine.settle }

/-- Lets some milliseconds pass. -/
def sleep (engine : Engine) (ms : Nat) : Engine :=
  { engine with machine := engine.machine.advanceTo (engine.now + ms) }

/-- Interrupts pauses, now and from now on. -/
def interrupt (engine : Engine) : Engine :=
  { engine with machine := engine.machine.raiseInterrupt }

/-- Shuts both pools down. -/
def shutdown (engine : Engine) : Report × Engine :=
  let (reports, machine) :=
    engine.machine.shutdown [.random, .delay] engine.config.pools.shutdownTimeoutMs
  (reports.foldl Report.merge Report.zero, { engine with machine := machine })

end Engine

/-- What a pool shows of itself in diagnostics. -/
def Schedule.Machine.poolText {W ι R : Type} [DecidableEq ι] (m : Machine W ι R) (pool : ι)
    (name : String) : String :=
  "WorkerPool \x7b name: " ++ Text.showQuoted name ++ ", in_flight: " ++
    toString (m.inFlight pool) ++ ", shut_down: " ++ toString (m.pools pool).closed ++ " \x7d"

/-- What a registry shows of itself in diagnostics. -/
def Registry.debugText (registry : Registry) : String :=
  "ActionRegistry \x7b types: [" ++ ", ".intercalate (registry.types.map Text.showQuoted) ++
    "] \x7d"

/-- What an engine shows of itself in diagnostics. -/
def Engine.debugText (engine : Engine) : String :=
  "ActionExecutor \x7b registry: " ++ engine.registry.debugText ++ ", random_pool: " ++
    engine.machine.poolText .random PoolName.random.text ++ ", delay_pool: " ++
    engine.machine.poolText .delay PoolName.delay.text ++ " \x7d"

end MenuActions
