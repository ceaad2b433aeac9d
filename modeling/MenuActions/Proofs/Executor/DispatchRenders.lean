import MenuActions.Executor
import MenuActions.Proofs.Catalog.Rendering
import MenuActions.Proofs.Registry.Builtin
import MenuActions.Proofs.Schedule.Delivery

/-!
# Dispatches that can be rendered in full

The results of the handlers that an engine comes with are renderable, whatever their data, the actor
and the services are.  A value action makes its result with every replacement that the text of its key
asks for (`renderable_attempt`); a combinator takes over the results of what it nests, with
replacements of its own, or folds them into an aggregate.

`renders_runHandler` says so of a handler when it holds of what the handler nests, and
`renders_dispatch` follows by induction on the levels that are left.
-/

namespace MenuActions

open Schedule

/-! ## Value actions -/

namespace ValueAction

open ActionResult

theorem renderable_perform {α : Type} (type : String) (answer : Backend.Answer α)
    {result : α → ActionResult} (h : ∀ value, (result value).Renderable) :
    (perform type answer result).1.Renderable := by
  obtain ⟨_ | value, b⟩ := answer
  · exact Outcome.renderable_error _
  · exact h value

theorem renderable_performConsole (type command : String) (retry : Option String)
    {result : ActionResult} (h : result.Renderable) (b : Backend) :
    (performConsole type command retry result b).1.Renderable := by
  unfold performConsole
  split
  · exact renderable_perform type _ fun _ => h
  · exact renderable_perform type _ fun _ => h

theorem renderable_reading {α : Type} (action : ValueAction) (value : String)
    (read? : List Char → Option α) (b : Backend) {run : α → Effect}
    (h : ∀ parsed, (run parsed).1.Renderable) : (action.reading value read? b run).1.Renderable := by
  unfold reading
  split
  · exact h _
  · exact Outcome.renderable_error _

/-- A change of a balance tells the amount and whose balance it is. -/
theorem renderable_changed (key : String) {result : ActionResult}
    (hkey : key ∈ [MessageKey.economyAdded, MessageKey.economyRemoved, MessageKey.economySet])
    (hmessage : result.message = key)
    (hnames : ∀ name ∈ ["player", "amount"], name ∈ result.replacements.names) :
    result.Renderable := by
  have hreversed : ∀ name ∈ ["amount", "player"], name ∈ result.replacements.names :=
    fun name hname => hnames name (List.mem_reverse.mp hname)
  simp only [List.mem_cons, List.not_mem_nil, or_false] at hkey
  rcases hkey with rfl | rfl | rfl
  · exact renderable_of _ ["amount", "player"] (by simp [MessageKey.asked]) hmessage hreversed
  · exact renderable_of _ ["amount", "player"] (by simp [MessageKey.asked]) hmessage hreversed
  · exact renderable_of _ ["player", "amount"] (by simp [MessageKey.asked]) hmessage hnames

theorem renderable_runEconomyService (actor : Actor) (b : Backend) (op : EconomyOp) :
    (runEconomyService actor b op).1.Renderable := by
  cases op with
  | add amount =>
      exact renderable_perform _ _ fun _ =>
        renderable_changed MessageKey.economyAdded (by simp) rfl (by simp [runEconomyService.report])
  | remove amount =>
      exact renderable_perform _ _ fun _ =>
        renderable_changed MessageKey.economyRemoved (by simp) rfl (by simp [runEconomyService.report])
  | set amount =>
      exact renderable_perform _ _ fun _ =>
        renderable_changed MessageKey.economySet (by simp) rfl (by simp [runEconomyService.report])
  | check =>
      show (runEconomyService.report actor MessageKey.economyBalance _).Renderable
      exact renderable_of MessageKey.economyBalance ["player", "balance"]
        (by simp [MessageKey.asked]) rfl (by simp [runEconomyService.report])

theorem renderable_runEconomyCommand (actor : Actor) (b : Backend) (op : EconomyOp) :
    (runEconomyCommand actor b op).1.Renderable := by
  have hrun (verb : String) (amount : Float) (key : String)
      (hkey : key ∈ [MessageKey.economyAdded, MessageKey.economyRemoved, MessageKey.economySet]) :
      (runEconomyCommand.run actor b verb amount key).1.Renderable :=
    renderable_performConsole _ _ _ (renderable_changed key hkey rfl (by simp)) b
  cases op with
  | add amount => exact hrun _ amount _ (by simp)
  | remove amount => exact hrun _ amount _ (by simp)
  | set amount => exact hrun _ amount _ (by simp)
  | check => exact Outcome.renderable_error _

theorem renderable_runGive (actor : Actor) (item : String) (amount : Nat) (b : Backend) :
    (runGive actor item amount b).1.Renderable := by
  refine renderable_performConsole _ _ _ ?_ b
  exact renderable_of MessageKey.inventoryGiven ["amount", "item"] (by simp [MessageKey.asked]) rfl
    (by simp)

theorem renderable_runClear (actor : Actor) (item : Option String) (amount : Option Nat) (b : Backend) :
    (runClear actor item amount b).1.Renderable := by
  have hcleared : ((success MessageKey.inventoryCleared).putText "player" actor.name).Renderable :=
    renderable_of MessageKey.inventoryCleared [] (by simp [MessageKey.asked]) rfl (by simp)
  cases item with
  | none => exact renderable_performConsole _ _ _ hcleared b
  | some item => exact renderable_performConsole _ _ _ (hcleared.put "item" (.str item)) b

theorem renderable_runGameMode (actor : Actor) (mode : GameMode) (b : Backend) :
    (runGameMode actor mode b).1.Renderable := by
  refine renderable_performConsole _ _ _ ?_ b
  exact renderable_of MessageKey.gamemodeChanged ["mode"] (by simp [MessageKey.asked]) rfl (by simp)

/-- Whatever becomes of an attempt, what it answers is renderable. -/
theorem renderable_attempt (action : ValueAction) (actor : Actor) (value : String) (b : Backend) :
    (action.attempt actor value b).1.Renderable := by
  cases action with
  | message =>
      exact renderable_perform _ _ fun _ =>
        renderable_of MessageKey.messageSent [] (by simp [MessageKey.asked]) rfl (by simp)
  | broadcast =>
      exact renderable_perform _ _ fun _ =>
        renderable_of MessageKey.broadcastSent [] (by simp [MessageKey.asked]) rfl (by simp)
  | actionbar =>
      exact renderable_perform _ _ fun _ =>
        renderable_of MessageKey.actionbarSent [] (by simp [MessageKey.asked]) rfl (by simp)
  | title =>
      exact renderable_reading _ _ _ _ fun t => renderable_perform _ _ fun _ =>
        renderable_of MessageKey.titleSent [] (by simp [MessageKey.asked]) rfl (by simp)
  | sound =>
      exact renderable_reading _ _ _ _ fun s => renderable_perform _ _ fun _ =>
        renderable_of MessageKey.soundPlayed ["sound"] (by simp [MessageKey.asked]) rfl (by simp)
  | command =>
      exact renderable_perform _ _ fun _ =>
        renderable_of MessageKey.commandExecuted ["command"] (by simp [MessageKey.asked]) rfl (by simp)
  | console =>
      exact renderable_perform _ _ fun _ =>
        renderable_of MessageKey.consoleExecuted ["command"] (by simp [MessageKey.asked]) rfl (by simp)
  | economy =>
      refine renderable_reading _ _ _ _ fun op => ?_
      split
      · exact renderable_runEconomyService actor b op
      · exact renderable_runEconomyCommand actor b op
  | gamemode => exact renderable_reading _ _ _ _ fun mode => renderable_runGameMode actor mode b
  | inventory =>
      refine renderable_reading _ _ _ _ fun op => ?_
      cases op with
      | give item amount => exact renderable_runGive actor item amount b
      | clear item amount => exact renderable_runClear actor item amount b

end ValueAction

/-! ## Handlers -/

namespace Executor

/-- A process that has nothing but renderable results, as long as the host has added no handler. -/
def Renders (p : ActionProcess) : Prop :=
  p.Delivers (fun state => state.registry.Unextended) Outcome.Renderable

theorem renders_answer {result : ActionResult} (h : result.Renderable) : Renders (answer result) :=
  h

theorem renders_fail (error : ActionError) : Renders (fail error) :=
  Outcome.renderable_error error

theorem Renders.bind {p : ActionProcess} {k : Outcome → ActionProcess} (hp : Renders p)
    (hk : ∀ outcome, outcome.Renderable → Renders (k outcome)) : Renders (p.bind k) :=
  Process.Delivers.bind hp hk

/-- A change that leaves the registry alone. -/
theorem renders_act {effect : Nat → Runtime → Runtime} {next : Runtime → ActionProcess}
    (heffect : ∀ now state, (effect now state).registry = state.registry)
    (hnext : ∀ state : Runtime, state.registry.Unextended → Renders (next state)) :
    Renders (.act effect next) :=
  ⟨fun now state hstate => show (effect now state).registry.Unextended from heffect now state ▸ hstate,
    hnext⟩

theorem renderable_combine (type : String) {outcomes : List Outcome}
    (h : ∀ outcome ∈ outcomes, outcome.Renderable) : (combine type outcomes).Renderable := by
  unfold combine
  split
  · exact h _ List.mem_cons_self
  · exact ActionResult.renderable_aggregate _ _ _

theorem renders_runValue (action : ValueAction) (actor : Actor) (value : String) :
    Renders (runValue action actor value) := by
  unfold runValue
  split
  · exact renders_act (fun _ _ => rfl) fun state _ =>
      action.renderable_attempt actor value state.backend
  · exact renders_fail _

theorem renders_runFrom {α : Type} {item : α → ActionProcess} (hitem : ∀ value, Renders (item value))
    (type : String) (pacing total : Nat) (values : List α) (results : List ActionResult) :
    Renders (Sequence.runFrom type pacing total item results values) := by
  induction values generalizing results with
  | nil => exact renders_answer (ActionResult.renderable_aggregate _ _ _)
  | cons value values ih =>
      have hbody : Renders ((item value).bind fun outcome =>
          Sequence.runFrom type pacing total item (results ++ [outcome.result]) values) :=
        (hitem value).bind fun _ _ => ih _
      rw [Sequence.runFrom]
      split
      · exact hbody
      · intro interrupted
        cases interrupted with
        | true => exact renders_answer (ActionResult.renderable_cutShort type results total)
        | false => exact hbody

theorem renders_runValues (action : ValueAction) (pacing : Nat) (actor : Actor) (data : String) :
    Renders (runValues action pacing actor data) := by
  unfold runValues
  split
  · exact renders_fail _
  · unfold Sequence.run
    split
    · exact renders_fail _
    · exact renders_runValue action actor _
    · exact renders_runFrom (renders_runValue action actor) _ _ _ _ _

/-- Nested actions one after the other, and an answer from their outcomes. -/
theorem renders_nested {nest : String → ActionProcess} (hnest : ∀ raw, Renders (nest raw))
    (raws : List String) {result : List Outcome → Outcome}
    (hresult : ∀ outcomes, (∀ outcome ∈ outcomes, outcome.Renderable) → (result outcomes).Renderable) :
    Renders (Process.sequence (raws.map nest) fun outcomes => .done (result outcomes)) := by
  refine Process.Delivers.sequence (fun p hp => ?_) fun outcomes houtcomes => hresult outcomes houtcomes
  obtain ⟨raw, _, rfl⟩ := List.mem_map.mp hp
  exact hnest raw

theorem renders_runConditional {nest : String → ActionProcess} (hnest : ∀ raw, Renders (nest raw))
    (world : World) (actor : Actor) (ctx : Context) (data : String) :
    Renders (runConditional nest world actor ctx data) := by
  unfold runConditional
  split
  · exact renders_fail _
  · extract_lets outcome branch entries
    split
    · exact renders_answer (ActionResult.renderable_of MessageKey.conditionalNoBranch ["outcome"]
        (by simp [MessageKey.asked]) rfl (by simp))
    · exact renders_nested hnest _ fun _ houtcomes => (renderable_combine _ houtcomes).put _ _

theorem renderable_drawn (chosen : Grammar.Weighted) {outcome : Outcome} (h : outcome.Renderable) :
    (drawn chosen outcome).Renderable :=
  (ActionResult.Renderable.put h _ _).put _ _

/-- A random choice answers with the result of what was drawn, also when it has waited for it. -/
theorem renders_runRandom (config : Config) {nest : String → ActionProcess}
    (hnest : ∀ raw, Renders (nest raw)) (inPlace : Bool) (world : World) (data : String) :
    Renders (runRandom config nest inPlace world data) := by
  unfold runRandom
  split
  · exact renders_fail _
  · refine renders_act (fun _ _ => rfl) fun state _ => ?_
    split
    · exact renders_answer (ActionResult.renderable_of MessageKey.randomEmpty []
        (by simp [MessageKey.asked]) rfl (by simp))
    · rename_i chosen _
      cases inPlace with
      | true => exact (hnest chosen.action).bind fun _ houtcome => renderable_drawn chosen houtcome
      | false =>
          refine ⟨hnest chosen.action, fun task => ?_⟩
          cases task with
          | none => exact renders_fail _
          | some number =>
              intro learnt hlearnt
              cases learnt with
              | none => exact renders_fail _
              | some outcome => exact renderable_drawn chosen (hlearnt outcome rfl)

theorem renders_runDelay {nest later : String → ActionProcess} (hnest : ∀ raw, Renders (nest raw))
    (hlater : ∀ raw, Renders (later raw)) (maxMs : Nat) (data : String) :
    Renders (runDelay nest later maxMs data) := by
  unfold runDelay
  split
  · exact renders_fail _
  · rename_i delay _
    extract_lets completed scheduled chain
    have hcompleted : completed.Renderable :=
      ActionResult.renderable_of MessageKey.delayCompleted ["delay_ms"] (by simp [MessageKey.asked]) rfl
        (by simp [completed])
    have hscheduled : scheduled.Renderable :=
      ActionResult.renderable_of MessageKey.delayScheduled ["delay_ms"] (by simp [MessageKey.asked]) rfl
        (by simp [scheduled])
    split
    · split
      · exact renders_answer hcompleted
      · exact renders_nested hnest _ fun _ houtcomes => renderable_combine _ houtcomes
    · split
      · exact renders_answer hscheduled
      · refine ⟨renders_nested hlater _ fun _ _ => hcompleted, fun task => ?_⟩
        cases task with
        | none => exact renders_fail _
        | some number => exact renders_answer hscheduled

/-- A handler that the host has not added has renderable results when what it nests has. -/
theorem renders_runHandler (config : Config) {nest : Bool → String → ActionProcess}
    (hnest : ∀ onRandom raw, Renders (nest onRandom raw)) (onRandom : Bool) (world : World)
    (actor : Actor) (ctx : Context) (data : String) {handler : Handler}
    (hhandler : ∀ extension, handler ≠ .added extension) :
    Renders (runHandler config nest onRandom world actor ctx data handler) := by
  cases handler with
  | value action pacing => exact renders_runValues action pacing actor data
  | conditional => exact renders_runConditional (hnest onRandom) world actor ctx data
  | random => exact renders_runRandom config (hnest true) onRandom world data
  | delay maxMs => exact renders_runDelay (hnest onRandom) (hnest false) maxMs data
  | added extension => exact absurd rfl (hhandler extension)

theorem registry_noteDispatch (actor : Actor) (action : Action) (ctx : Context) (parent : Option Nat)
    (state : Runtime) : (noteDispatch actor action ctx parent state).registry = state.registry := by
  unfold noteDispatch
  split <;> rfl

theorem renders_dispatchWith (config : Config) {nest : Nat → Bool → String → ActionProcess}
    (hnest : ∀ number onRandom raw, Renders (nest number onRandom raw)) (parent : Option Nat)
    (onRandom : Bool) (actor : Actor) (action : Action) (ctx : Context) :
    Renders (dispatchWith config nest parent onRandom actor action ctx) := by
  unfold dispatchWith
  refine renders_act (fun _ state => registry_noteDispatch actor action ctx parent state)
    fun state hstate => ?_
  split
  · exact renders_answer (ActionResult.renderable_ofError _)
  · rename_i handler hlookup
    have hhandler : ∀ extension, handler ≠ .added extension := by
      rintro extension rfl
      exact hstate _ _ hlookup
    exact (renders_runHandler config (hnest _) _ _ _ _ _ hhandler).bind fun _ houtcome => houtcome

theorem renders_tooDeep (config : Config) (ctx : Context) : Renders (tooDeep config ctx) :=
  renders_answer (ActionResult.renderable_ofError _)

/-- At whatever depth an action is dispatched, its result is renderable. -/
theorem renders_dispatch (config : Config) (levels : Nat) (parent : Option Nat) (onRandom : Bool)
    (actor : Actor) (action : Action) (ctx : Context) :
    Renders (dispatch config levels parent onRandom actor action ctx) := by
  induction levels generalizing parent onRandom action ctx with
  | zero =>
      exact renders_dispatchWith config (fun _ _ _ => renders_tooDeep config ctx) parent onRandom actor
        action ctx
  | succ levels ih =>
      exact renders_dispatchWith config (fun _ onRandom raw => ih _ onRandom _ ctx.nested) parent
        onRandom actor action ctx

theorem renders_execute (config : Config) (actor : Actor) (action : Action) (ctx : Context) :
    Renders (execute config actor action ctx) :=
  renders_dispatch config _ none false actor action ctx

theorem renders_executeNested (config : Config) (actor : Actor) (raw : String) (ctx : Context) :
    Renders (executeNested config actor raw ctx) := by
  unfold executeNested
  split
  · exact renders_tooDeep config ctx
  · exact renders_execute config actor _ ctx.nested

end Executor

end MenuActions
