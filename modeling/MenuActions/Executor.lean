import MenuActions.Placeholder
import MenuActions.Registry
import MenuActions.Schedule.Process
import MenuActions.Sequence

/-!
# Running actions

An action is dispatched by filling the placeholders of its data and handing it to the handler of its
type. Combinators dispatch further actions one level deeper, up to a limit; `levels` counts the
levels that are left, so that dispatching ends by recursion on it. Every outcome becomes a result.
-/

namespace MenuActions

open Schedule

/-- The pools on which actions run in the background. -/
inductive PoolName
  | random
  | delay
  deriving DecidableEq, Repr

/-- The name of a pool. -/
def PoolName.text : PoolName → String
  | random => "random"
  | delay => "delay"

/-- What running actions read and change. -/
structure World where
  backend : Backend
  registry : Registry
  /-- The draws to come, each in `[0, 1)`; when there are none left, zero is drawn. -/
  draws : List Float

/-- A handler that was run: its action with the placeholders filled, how deep it was nested, and the
number of the dispatch that it was nested in. -/
structure Dispatch where
  action : Action
  depth : Nat
  parent : Option Nat
  deriving DecidableEq, Repr

/-- The world while actions run, with a record of the dispatches in the order in which they happened.
No action depends on the record. -/
structure Runtime extends World where
  dispatches : List Dispatch

/-- The process of an action. -/
abbrev ActionProcess := Process Runtime PoolName Outcome

namespace Executor

/-- The process that ends with a result. -/
def answer (result : ActionResult) : ActionProcess :=
  .done (.ok result)

/-- The process that ends with an error. -/
def fail (error : ActionError) : ActionProcess :=
  .done (.error error)

/-- Why a raw action would not run, if it would not. -/
def validate (config : Config) (registry : Registry) (raw : String) : Except ActionError Unit :=
  let action := Action.read config.defaultType raw
  match registry.lookup action.type with
  | none => .error (.unknownType action.type)
  | some handler =>
      if handler.isValid action.data then .ok ()
      else .error (.validation action.type ("invalid data '" ++ action.data ++ "'"))

/-- Whether a raw action would run. -/
def isValid (config : Config) (registry : Registry) (raw : String) : Bool :=
  (validate config registry raw).isOk

/-- Applies a value action to one value. -/
def runValue (action : ValueAction) (actor : Actor) (value : String) : ActionProcess :=
  if action.isValid value then
    .act
      (fun _ state => { state with backend := (action.attempt actor value state.backend).2 })
      fun state => .done (action.attempt actor value state.backend).1
  else fail (.validation action.typeName ("invalid value '" ++ value ++ "'"))

/-- Applies a value action to the values of its data. -/
def runValues (action : ValueAction) (pacing : Nat) (actor : Actor) (data : String) :
    ActionProcess :=
  match Handler.readTexts action.typeName data with
  | .error error => fail (.ofParse action.typeName error)
  | .ok values => Sequence.run action.typeName pacing values (runValue action actor)

/-- The results of some outcomes as one: a single one as it is, several as an aggregate. -/
def combine (type : String) (outcomes : List Outcome) : ActionResult :=
  match outcomes with
  | [outcome] => outcome.result
  | outcomes => ActionResult.aggregate type (outcomes.map Outcome.result) outcomes.length

/-- Whether a term of a condition holds. A name without a value stands for itself. -/
def holds (backend : Backend) (actor : Actor) (ctx : Context) : Grammar.Term → Bool
  | .placeholder name op value =>
      op.holds ((Placeholder.lookup backend.placeholders.get? actor ctx name).getD name) value
  | .permission node => backend.hasPermission node

/-- Runs the branch that a condition selects. Random blocks in it are passed over. -/
def runConditional (nest : String → ActionProcess) (world : World) (actor : Actor)
    (ctx : Context) (data : String) : ActionProcess :=
  match Grammar.Conditional.readData data.toList with
  | .error error => fail (.ofParse "conditional" error)
  | .ok spec =>
      let outcome := spec.expression.evaluate (holds world.backend actor ctx)
      let branch := if outcome then spec.whenTrue else spec.whenFalse
      let entries := branch.filter fun entry => !Grammar.Block.isRandom entry.toList
      if entries.isEmpty then
        answer ((ActionResult.success MessageKey.conditionalNoBranch).put "outcome"
          (.bool outcome))
      else
        Process.sequence (entries.map nest) fun outcomes =>
          answer ((combine "conditional" outcomes).put "outcome" (.bool outcome))

/-- The entries of a random choice that can be drawn. Random blocks among them are passed over. -/
def entries (config : Config) (registry : Registry) (data : String) :
    Except ActionError (List Grammar.Weighted) :=
  match Handler.readTexts "random" data with
  | .error error => .error (.ofParse "random" error)
  | .ok values =>
      .ok <|
        (values.filter fun value => !Grammar.Block.isRandom value.toList).filterMap fun value =>
          Grammar.Weighted.read? (isValid config registry) value.toList

/-- The result of a drawn action, with what was drawn. -/
def drawn (chosen : Grammar.Weighted) (outcome : Outcome) : ActionResult :=
  (outcome.result.putText "selected" chosen.action).put "weight" (.float chosen.weight)

/-- Draws an action and runs it on the random pool, or in place when it is already on that pool. -/
def runRandom (config : Config) (nest : String → ActionProcess) (inPlace : Bool) (world : World)
    (data : String) : ActionProcess :=
  match entries config world.registry data with
  | .error error => fail error
  | .ok candidates =>
      .act (fun _ state => { state with draws := state.draws.tail }) fun state =>
        match Grammar.Weighted.select candidates (state.draws.headD 0.0) with
        | none => answer (ActionResult.failure MessageKey.randomEmpty)
        | some chosen =>
            if inPlace then
              (nest chosen.action).bind fun outcome => answer (drawn chosen outcome)
            else
              .spawn .random (nest chosen.action) fun
                | none => fail (.poolShutdown PoolName.random.text)
                | some task => .join task fun
                    | some outcome => answer (drawn chosen outcome)
                    | none => fail (.panicked "random" "task was cancelled")

/-- Runs the chained actions at once when the delay is zero; otherwise schedules them on the delay
pool and answers right away. -/
def runDelay (nest : String → ActionProcess) (later : String → ActionProcess) (maxMs : Nat)
    (data : String) : ActionProcess :=
  match Delay.read maxMs data.toList with
  | .error error => fail error
  | .ok delay =>
      let completed := (ActionResult.success MessageKey.delayCompleted).putCount "delay_ms" delay.ms
      if delay.ms = 0 then
        if delay.chained.isEmpty then answer completed
        else
          Process.sequence (delay.chained.map nest) fun outcomes =>
            answer (combine Delay.typeName outcomes)
      else
        let scheduled :=
          ((ActionResult.success MessageKey.delayScheduled).putCount "delay_ms" delay.ms).putCount
            "actions" delay.chained.length
        if delay.chained.isEmpty then answer scheduled
        else
          let chain :=
            Process.sleep delay.ms
              (Process.sequence (delay.chained.map later) fun _ => answer completed)
          .spawn .delay chain fun
            | none => fail (.poolShutdown PoolName.delay.text)
            | some _ => answer scheduled

/-- Runs an added handler. -/
def runAdded (nest : String → ActionProcess) (ctx : Context) (handler : AddedHandler)
    (data : String) : ActionProcess :=
  let panic := fun message => fail (.panicked handler.name message)
  match handler.behaviour with
  | .succeed =>
      answer (((ActionResult.success "custom.ok").putText "data" data).putCount "depth" ctx.depth)
  | .fail => answer ((ActionResult.failure "custom.fail").putText "data" data)
  | .partly =>
      answer ((ActionResult.ofStatus .partialSuccess "custom.partial").putText "data" data)
  | .refuse => fail (.validation handler.name data)
  | .raise => fail (.execution handler.name data)
  | .panicFixed => panic "handler bug"
  | .panicShowing => panic ("bug: " ++ data)
  | .panicSilent => panic "unknown panic"
  | .forward =>
      (nest data).bind fun outcome => answer (outcome.result.putText "via" handler.name)

/-- Runs a handler on data whose placeholders are filled. `nest` runs an action one level deeper;
its flag says whether that happens on the random pool. -/
def runHandler (config : Config) (nest : Bool → String → ActionProcess) (onRandom : Bool)
    (world : World) (actor : Actor) (ctx : Context) (data : String) : Handler → ActionProcess
  | .value action pacing => runValues action pacing actor data
  | .conditional => runConditional (nest onRandom) world actor ctx data
  | .random => runRandom config (nest true) onRandom world data
  | .delay maxMs => runDelay (nest onRandom) (nest false) maxMs data
  | .added handler => runAdded (nest onRandom) ctx handler data

/-- An action with the placeholders of its data filled. -/
def fill (world : World) (actor : Actor) (ctx : Context) (action : Action) : Action :=
  { action with
    data := Placeholder.resolve world.backend.placeholders.get? actor ctx action.data }

/-- Makes a note of an action whose handler is about to run. -/
def noteDispatch (actor : Actor) (action : Action) (ctx : Context) (parent : Option Nat)
    (state : Runtime) : Runtime :=
  if state.registry.contains action.type then
    { state with
      dispatches := state.dispatches ++ [⟨fill state.toWorld actor ctx action, ctx.depth, parent⟩] }
  else state

/-- Finds the handler of an action, fills the placeholders of its data and runs it. The number of the
dispatch is handed to the actions that are nested in it. -/
def dispatchWith (config : Config) (nest : Nat → Bool → String → ActionProcess)
    (parent : Option Nat) (onRandom : Bool) (actor : Actor) (action : Action) (ctx : Context) :
    ActionProcess :=
  .act (fun _ state => noteDispatch actor action ctx parent state) fun state =>
    match state.registry.lookup action.type with
    | none => answer (.ofError (.unknownType action.type))
    | some handler =>
        let number := state.dispatches.length
        let data := (fill state.toWorld actor ctx action).data
        (runHandler config (nest number) onRandom state.toWorld actor ctx data handler).bind
          fun outcome => answer outcome.result

/-- What becomes of an action one level below a context from which no level is left. -/
def tooDeep (config : Config) (ctx : Context) : ActionProcess :=
  answer (.ofError (.depthExceeded (ctx.depth + 1) config.maxNestingDepth))

/-- Dispatches an action in a context below which `levels` levels are left. -/
def dispatch (config : Config) (levels : Nat) (parent : Option Nat) (onRandom : Bool)
    (actor : Actor) (action : Action) (ctx : Context) : ActionProcess :=
  match levels with
  | 0 => dispatchWith config (fun _ _ _ => tooDeep config ctx) parent onRandom actor action ctx
  | levels + 1 =>
      dispatchWith config
        (fun number onRandom raw =>
          dispatch config levels (some number) onRandom actor
            (Action.read config.defaultType raw) ctx.nested)
        parent onRandom actor action ctx

/-- How many levels are left below a context. -/
def levelsBelow (config : Config) (ctx : Context) : Nat :=
  config.maxNestingDepth - ctx.depth

/-- Runs an action in a context. -/
def execute (config : Config) (actor : Actor) (action : Action) (ctx : Context) : ActionProcess :=
  dispatch config (levelsBelow config ctx) none false actor action ctx

/-- Runs a raw action. -/
def executeRaw (config : Config) (actor : Actor) (raw : String) (ctx : Context) : ActionProcess :=
  execute config actor (Action.read config.defaultType raw) ctx

/-- Runs a raw action one level below a context. -/
def executeNested (config : Config) (actor : Actor) (raw : String) (ctx : Context) :
    ActionProcess :=
  if config.maxNestingDepth < ctx.depth + 1 then tooDeep config ctx
  else executeRaw config actor raw ctx.nested

end Executor

end MenuActions
