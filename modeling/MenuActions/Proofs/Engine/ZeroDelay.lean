import MenuActions.Engine
import MenuActions.Proofs.Engine.Nesting
import MenuActions.Proofs.Executor.UnseenRecord
import MenuActions.Proofs.ScriptTree.Reading
import MenuActions.Proofs.Template.Substitution

/-!
# A delay of zero

A value action behind a delay of zero runs in place, one level deeper.  The placeholders are filled
twice on the way: in the data of the delay, which holds the chained action, and again in the data of
that action.

`executeRaw_zeroDelay` compares the delayed action with the direct one on any engine that has been
used before, with whatever tasks are under way on it.  The two runs differ in the record of
dispatches, which no task sees.
-/

namespace MenuActions

open Schedule Text Grammar

/-! ## Reading -/

section Texts

variable {type : List Char} (text : List Char)

/-- The data of a value action are trimmed before they are read. -/
theorem Handler.readTexts_trim (name : String) :
    readTexts name (String.ofList (trim text)) = readTexts name (String.ofList text) := by
  rw [readTexts, readTexts, String.toList_ofList, String.toList_ofList, readValues, readValues,
    trim_trim]

theorem Delay.trim_zero :
    trim ('0' :: ':' :: (type ++ ':' :: text)) = '0' :: ':' :: (type ++ ':' :: trimEnd text) := by
  have hend := @trimEnd_append_cons ('0' :: ':' :: type) text ':' (by decide)
  rw [trim, trimStart_cons (by decide)]
  exact hend

/-- An action behind a delay of zero is the data of the delay. -/
theorem Action.read_zeroDelay (default : String) :
    read default (String.ofList ("delay:0:".toList ++ (type ++ ':' :: text))) =
      ⟨Delay.typeName, String.ofList ('0' :: ':' :: (type ++ ':' :: trimEnd text))⟩ := by
  have hread := read_normal ('0' :: ':' :: (type ++ ':' :: text)) default (by decide)
    ScriptTree.normalizeName_delay
  rw [Delay.trim_zero] at hread
  exact hread

theorem Action.read_value (default : String) (action : ValueAction) :
    read default (String.ofList (action.typeName.toList ++ ':' :: text)) =
      ⟨action.typeName, String.ofList (trim text)⟩ := by
  have htype : isTypeName action.typeName.toList = true := by
    cases action <;> decide
  exact read_normal text default htype (normalizeName_typeName action)

/-- The action behind a delay of zero comes back. -/
theorem Delay.read_zeroDelay (max : Nat) (htype : Block.IsName type) :
    read max ('0' :: ':' :: (type ++ ':' :: text)) =
      .ok ⟨0, [String.ofList (type ++ ':' :: trimEnd (trimEnd text))]⟩ := by
  have hdata : trim ('0' :: ':' :: (type ++ ':' :: text)) = ['0'] ++ ':' :: (type ++ ':' :: trimEnd text) :=
    trim_zero text
  have hplain : ¬IsBlock (trim ('0' :: ':' :: (type ++ ':' :: text))) := by
    rw [hdata]
    exact not_isBlock_of_colon _ (by decide)
  have haction : trim (type ++ ':' :: trimEnd text) = type ++ ':' :: trimEnd (trimEnd text) :=
    Action.trim_colon _ htype
  have hsplit : split ('0' :: ':' :: (type ++ ':' :: text)) =
      .ok (['0'], [type ++ ':' :: trimEnd (trimEnd text)]) := by
    rw [split_of_colon hplain hdata (by decide), haction, if_neg (by simp)]
    rfl
  rw [read_of_split hsplit, ScriptTree.readTime_zero]
  rfl

/-- Only the chained action has placeholders. -/
theorem Placeholder.resolve_zeroDelay (provider : String → Option String) (actor : Actor)
    (ctx : Context) (htype : Block.IsName type) :
    resolve provider actor ctx (String.ofList ('0' :: ':' :: (type ++ ':' :: text))) =
      String.ofList ('0' :: ':' :: (type ++
        ':' :: Template.fill Template.isPlaceholderChar (lookup provider actor ctx) text)) := by
  have hbrace : '{' ∉ type := fun hmem => absurd (htype.1 _ hmem) (by decide)
  rw [resolve, String.toList_ofList, Template.fill_cons (by decide), Template.fill_cons (by decide),
    Template.fill_append_of_no_brace hbrace, Template.fill_cons (by decide)]

end Texts

namespace Executor

variable {config : Config} {machine other : ActionMachine} {actor : Actor} {ctx : Context}

/-- The result of a process in the foreground, if it has one, and the machine that it leaves
behind. -/
def resultOf (process : ActionProcess) (machine : ActionMachine) :
    Option ActionResult × ActionMachine :=
  ((machine.run process).1.map Outcome.result, (machine.run process).2)

/-- The machine on which a dispatch has been noted. -/
def noted (actor : Actor) (action : Action) (ctx : Context) (parent : Option Nat)
    (machine : ActionMachine) : ActionMachine :=
  { machine with world := noteDispatch actor action ctx parent machine.world }

/-- Two processes have the same result, and what they leave behind differs in the record at
most. -/
def SameRun (p : ActionProcess) (machine : ActionMachine) (q : ActionProcess)
    (other : ActionMachine) : Prop :=
  (resultOf p machine).1 = (resultOf q other).1 ∧
    (resultOf p machine).2.Alike SameWorld (resultOf q other).2

theorem sameRun_of_alike {p q : ActionProcess} (hp : p.Alike SameWorld q)
    (h : machine.Alike SameWorld other) : SameRun p machine q other :=
  ⟨congrArg (Option.map Outcome.result) (h.run hp).1, (h.run hp).2⟩

/-- An outcome that is answered as a result has that result. -/
theorem resultOf_bind_answer (p : ActionProcess) (machine : ActionMachine) :
    resultOf (p.bind fun outcome => answer outcome.result) machine = resultOf p machine := by
  unfold resultOf
  rw [Machine.run_bind]
  cases machine.run p with
  | mk outcome after => cases outcome <;> rfl

/-- A dispatch has the result of its handler, on a machine on which it has been noted. -/
theorem resultOf_dispatch {action : Action} {handler : Handler}
    (hlookup : machine.world.registry.lookup action.type = some handler) (parent : Option Nat)
    (onRandom : Bool) :
    resultOf (dispatch config (levelsBelow config ctx) parent onRandom actor action ctx) machine =
      resultOf
        (runHandler config (nestBelow config actor ctx machine.world.dispatches.length) onRandom
          machine.world.toWorld actor ctx (fill machine.world.toWorld actor ctx action).data handler)
        (noted actor action ctx parent machine) := by
  rw [← resultOf_bind_answer (runHandler _ _ _ _ _ _ _ _), dispatch_levelsBelow, dispatchWith, resultOf,
    Machine.run]
  simp only [hlookup]
  rfl

/-- A note makes a difference in the record alone. -/
theorem noted_alike (h : machine.Alike SameWorld other) (action : Action) (ctx : Context)
    (parent : Option Nat) : (noted actor action ctx parent machine).Alike SameWorld other :=
  h.withWorld ((noteDispatch_toWorld action parent machine.world).trans h.world)

theorem alike_noted (h : machine.Alike SameWorld other) (action : Action) (ctx : Context)
    (parent : Option Nat) : machine.Alike SameWorld (noted actor action ctx parent other) :=
  h.withWorld (h.world.trans (noteDispatch_toWorld action parent other.world).symm)

section Value

variable {action : ValueAction} {pacing : Nat} {world : World}

/-- What a value action does depends on its data through the values in them alone. -/
theorem sameRun_value (h : machine.Alike SameWorld other) (hworld : machine.world.toWorld = world)
    (hlookup : world.registry.lookup action.typeName = some (.value action pacing))
    {data data' : String}
    (hdata : Handler.readTexts action.typeName (fill world actor ctx ⟨action.typeName, data⟩).data =
      Handler.readTexts action.typeName (fill world actor ctx ⟨action.typeName, data'⟩).data)
    (parent parent' : Option Nat) :
    SameRun
      (dispatch config (levelsBelow config ctx) parent false actor ⟨action.typeName, data⟩ ctx)
      machine
      (dispatch config (levelsBelow config ctx) parent' false actor ⟨action.typeName, data'⟩ ctx)
      other := by
  have hother : other.world.toWorld = world := h.world.symm.trans hworld
  have hvalues : runValues action pacing actor (fill world actor ctx ⟨action.typeName, data'⟩).data =
      runValues action pacing actor (fill world actor ctx ⟨action.typeName, data⟩).data := by
    unfold runValues
    rw [hdata]
  have hnoted : (noted actor ⟨action.typeName, data⟩ ctx parent machine).Alike SameWorld
      (noted actor ⟨action.typeName, data'⟩ ctx parent' other) :=
    alike_noted (noted_alike h _ ctx parent) _ ctx parent'
  unfold SameRun
  rw [resultOf_dispatch (by rw [hworld]; exact hlookup),
    resultOf_dispatch (by rw [hother]; exact hlookup), hworld, hother, runHandler, runHandler, hvalues]
  exact sameRun_of_alike (alike_runValues action pacing actor _) hnoted

/-- A delay of zero runs the action behind it in place. -/
theorem runHandler_zeroDelay {nest : Bool → String → ActionProcess} {type : List Char}
    (htype : Block.IsName type) (world : World) (maxMs : Nat) (text : List Char) :
    runHandler config nest false world actor ctx
        (String.ofList ('0' :: ':' :: (type ++ ':' :: text))) (.delay maxMs) =
      (nest false (String.ofList (type ++ ':' :: trimEnd (trimEnd text)))).bind fun outcome =>
        answer outcome.result := by
  rw [runHandler, runDelay, String.toList_ofList, Delay.read_zeroDelay _ _ htype]
  rfl

/-- Within the limit, a nested value action is dispatched one level deeper. -/
theorem nestBelow_value (hdepth : ctx.depth < config.maxNestingDepth) (action : ValueAction)
    (number : Nat) (onRandom : Bool) (text : List Char) :
    nestBelow config actor ctx number onRandom
        (String.ofList (action.typeName.toList ++ ':' :: text)) =
      dispatch config (levelsBelow config ctx.nested) (some number) onRandom actor
        ⟨action.typeName, String.ofList (trim text)⟩ ctx.nested := by
  rw [nestBelow, if_neg (Nat.not_lt_of_le hdepth), Action.read_value]

/-- A value action behind a delay of zero does what the action does one level deeper, with data that
have been filled before. -/
theorem sameRun_zeroDelay (h : machine.Alike SameWorld machine)
    (hworld : machine.world.toWorld = world)
    (hvalue : world.registry.lookup action.typeName = some (.value action pacing))
    {maxMs : Nat} (hdelay : world.registry.lookup Delay.typeName = some (.delay maxMs))
    (hdepth : ctx.depth < config.maxNestingDepth) (text : List Char) {data : String}
    (hdata :
      let filled := Template.fill Template.isPlaceholderChar
        (Placeholder.lookup world.backend.placeholders.get? actor ctx) text
      Handler.readTexts action.typeName
          (fill world actor ctx.nested ⟨action.typeName, String.ofList (trim filled)⟩).data =
        Handler.readTexts action.typeName
          (fill world actor ctx.nested ⟨action.typeName, data⟩).data) :
    SameRun
      (executeRaw config actor
        (String.ofList ("delay:0:".toList ++ (action.typeName.toList ++ ':' :: text))) ctx) machine
      (execute config actor ⟨action.typeName, data⟩ ctx.nested) machine := by
  have hname := ScriptTree.isName_typeName action
  let value := Placeholder.lookup world.backend.placeholders.get? actor ctx
  let delayed : Action :=
    ⟨Delay.typeName, String.ofList ('0' :: ':' :: (action.typeName.toList ++ ':' :: trimEnd text))⟩
  have hfilled : (fill world actor ctx delayed).data = String.ofList ('0' :: ':' ::
      (action.typeName.toList ++
        ':' :: Template.fill Template.isPlaceholderChar value (trimEnd text))) :=
    Placeholder.resolve_zeroDelay _ _ actor ctx hname
  have htrim : trim (trimEnd (trimEnd (Template.fill Template.isPlaceholderChar value
      (trimEnd text)))) = trim (Template.fill Template.isPlaceholderChar value text) := by
    rw [trim_trimEnd, trim_trimEnd, ← Template.trim_fill_trim, trim_trimEnd,
      Template.trim_fill_trim]
  have hnoted : (noted actor delayed ctx none machine).world.toWorld = world :=
    (noteDispatch_toWorld _ _ _).trans hworld
  unfold executeRaw execute
  rw [Action.read_zeroDelay]
  unfold SameRun
  rw [resultOf_dispatch (by rw [hworld]; exact hdelay), hworld, hfilled, runHandler_zeroDelay hname,
    resultOf_bind_answer, nestBelow_value hdepth, htrim]
  exact sameRun_value (noted_alike h delayed ctx none) hnoted hvalue hdata _ none

end Value

end Executor

namespace Engine

open Executor

/-- The engines on which actions have been run, in whatever contexts, with other operations in
between. -/
inductive Used : Engine → Prop
  | start (config : Config) (world : World) : Used (start config world)
  | execute {engine : Engine} (actor : Actor) (action : Action) (ctx : Context) :
      Used engine → Used (engine.execute actor action ctx).2
  | later {engine after : Engine} : Used engine → Later engine after → Used after

/-- No task that is under way on an engine sees the record of dispatches. -/
theorem Used.alike {engine : Engine} (h : Used engine) :
    engine.machine.Alike SameWorld engine.machine := by
  induction h with
  | start config world => exact Machine.Alike.start _ rfl
  | execute actor action ctx _ ih =>
      rw [Engine.execute, runProcess_snd]
      exact (ih.run (alike_dispatch _ _ none none false actor action ctx)).2
  | later _ hlater ih =>
      cases hlater with
      | settle => exact ih.settle
      | sleep ms => exact ih.advanceTo _
      | interrupt => exact ih.raiseInterrupt
      | shutdown => exact ih.shutdown _ _
      | world world => exact ih.withWorld rfl

/-- What an engine answers is the result of the process, if there is one. -/
theorem runProcess_fst (engine : Engine) (process : ActionProcess) :
    (engine.runProcess process).1 =
      (resultOf process engine.machine).1.getD (.ofError (.panicked "action" "unknown panic")) := by
  unfold runProcess resultOf
  cases engine.machine.run process with
  | mk outcome after => cases outcome <;> rfl

theorem runProcess_of_sameRun {engine : Engine} {p q : ActionProcess}
    (h : SameRun p engine.machine q engine.machine) :
    (engine.runProcess p).1 = (engine.runProcess q).1 ∧
      (engine.runProcess p).2.backend = (engine.runProcess q).2.backend := by
  have hworld : (engine.machine.run p).2.world.toWorld = (engine.machine.run q).2.world.toWorld :=
    h.2.world
  constructor
  · rw [runProcess_fst, runProcess_fst, h.1]
  · rw [runProcess_snd, runProcess_snd]
    exact congrArg World.backend hworld

/-- A delay of zero.  A value action behind it makes the calls and has the result that the action has
one level deeper once its placeholders have been filled, and whatever comes in for them is filled once
more there.  When filling the text a second time changes nothing, that is what the action as it is
written does one level deeper. -/
theorem executeRaw_zeroDelay {engine : Engine} (h : Used engine) {action : ValueAction} {pacing : Nat}
    (hvalue : engine.registry.lookup action.typeName = some (.value action pacing)) {maxMs : Nat}
    (hdelay : engine.registry.lookup Delay.typeName = some (.delay maxMs)) (actor : Actor)
    {ctx : Context} (hdepth : ctx.depth < engine.config.maxNestingDepth) (text : String) :
    let filled := engine.resolve actor ctx text
    let delayed := engine.executeRaw actor ("delay:0:" ++ action.typeName ++ ":" ++ text) ctx
    let direct := fun text => engine.executeRaw actor (action.typeName ++ ":" ++ text) ctx.nested
    (delayed.1 = (direct filled).1 ∧ delayed.2.backend = (direct filled).2.backend) ∧
      (engine.resolve actor ctx filled = filled →
        delayed.1 = (direct text).1 ∧ delayed.2.backend = (direct text).2.backend) := by
  intro filled delayed direct
  have hdelayed : "delay:0:" ++ action.typeName ++ ":" ++ text =
      String.ofList ("delay:0:".toList ++ (action.typeName.toList ++ ':' :: text.toList)) := by
    rw [← String.toList_inj]
    simp
  have hdirect : ∀ text : String, Action.read engine.config.defaultType
      (action.typeName ++ ":" ++ text) = ⟨action.typeName, String.ofList (trim text.toList)⟩ := by
    intro text
    have hraw : action.typeName ++ ":" ++ text =
        String.ofList (action.typeName.toList ++ ':' :: text.toList) := by
      rw [← String.toList_inj]
      simp
    rw [hraw, Action.read_value]
  let value := Placeholder.lookup engine.backend.placeholders.get? actor ctx
  let data := fun s : List Char =>
    (fill engine.machine.world.toWorld actor ctx.nested ⟨action.typeName, String.ofList s⟩).data
  have hfilled : filled.toList = Template.fill Template.isPlaceholderChar value text.toList :=
    String.toList_ofList
  have hdata : ∀ s, data s = String.ofList (Template.fill Template.isPlaceholderChar value s) := by
    intro s
    show String.ofList (Template.fill Template.isPlaceholderChar value (String.ofList s).toList) = _
    rw [String.toList_ofList]
  have hsame : ∀ other : String, Handler.readTexts action.typeName (data (trim filled.toList)) =
      Handler.readTexts action.typeName (data (trim other.toList)) →
        delayed.1 = (direct other).1 ∧ delayed.2.backend = (direct other).2.backend := by
    intro other hvalues
    rw [hfilled] at hvalues
    have hrun := runProcess_of_sameRun
      (sameRun_zeroDelay h.alike rfl hvalue hdelay hdepth text.toList hvalues)
    rw [← hdirect other, ← hdelayed] at hrun
    exact hrun
  constructor
  · exact hsame filled rfl
  · intro hagain
    have hfixed : Template.fill Template.isPlaceholderChar value filled.toList = filled.toList := by
      have htwice := congrArg String.toList hagain
      rw [resolve, Placeholder.resolve, String.toList_ofList] at htwice
      exact htwice
    refine hsame text ?_
    rw [hdata, hdata, Template.fill_trim hfixed, hfilled, ← Template.trim_fill_trim,
      Handler.readTexts_trim]

/-- A token that nobody knows is the same text after one filling and after two. -/
theorem executeRaw_zeroDelay_unknown :
    let engine := start Config.standard ⟨Backend.empty, Registry.builtin Config.standard, []⟩
    let actor : Actor := ⟨"1", "Alex", none⟩
    let text := "Hi \x7bplayer\x7d, \x7bnobody\x7d"
    let message := ValueAction.message.typeName
    let filled := engine.resolve actor .empty text
    let delayed := engine.executeRaw actor ("delay:0:" ++ message ++ ":" ++ text) .empty
    let direct := engine.executeRaw actor (message ++ ":" ++ text) Context.empty.nested
    Used engine ∧ Context.empty.depth < engine.config.maxNestingDepth ∧
      engine.registry.lookup message = some (.value .message (Config.standard.pacing .message)) ∧
      engine.registry.lookup Delay.typeName =
        some (.delay (min Config.standard.maxDelayMs Delay.cap)) ∧
      engine.resolve actor .empty filled = filled ∧
      delayed.1 = direct.1 ∧ delayed.2.backend = direct.2.backend := by
  intro engine actor text message filled delayed direct
  have hused : Used engine := .start _ _
  have hdepth : Context.empty.depth < engine.config.maxNestingDepth := by decide
  have hvalue := Registry.lookup_builtin_value Config.standard .message
  have hdelay := Registry.lookup_builtin_delay Config.standard
  have hfixed : engine.resolve actor .empty filled = filled := by
    decide +kernel
  have hsame := executeRaw_zeroDelay hused hvalue hdelay actor hdepth text
  exact ⟨hused, hdepth, hvalue, hdelay, hfixed, hsame.2 hfixed⟩

/-- A form result that is a token itself is delivered as it is one level deeper, and filled behind a
delay of zero. -/
theorem zeroDelay_fills_twice :
    let engine := start Config.standard ⟨Backend.empty, Registry.builtin Config.standard, []⟩
    let actor : Actor := ⟨"1", "Alex", none⟩
    let ctx : Context := { Context.empty with formResults := [("name", .str "\x7bplayer\x7d")] }
    let delayed := engine.executeRaw actor "delay:0:message:Hi \x7bname\x7d" ctx
    let direct := engine.executeRaw actor "message:Hi \x7bname\x7d" ctx.nested
    ctx.depth < engine.config.maxNestingDepth ∧ delayed.2.backend.messages = ["Hi Alex"] ∧
      direct.2.backend.messages = ["Hi \x7bplayer\x7d"] ∧
      delayed.2.backend.messages ≠ direct.2.backend.messages := by
  decide +kernel

end Engine

end MenuActions
