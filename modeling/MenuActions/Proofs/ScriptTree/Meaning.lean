import MenuActions.Engine
import MenuActions.Proofs.Executor.UnseenRecord
import MenuActions.Proofs.ScriptTree.Reading
import MenuActions.Proofs.ScriptTree.Values

/-!
# The text of a script tree means the tree

Running the text of a tree does to the backend what interpreting the tree does, and answers with the
same status.  The induction is over the tree; what it carries is the number of levels that are left and
whether the text runs on the random pool, where everything happens in place.

* `Executor.Means` says that a process has the meaning of a tree in the foreground of an idle machine,
  or straight when it runs on the random pool.
* `Executor.means_conditional`, `means_delay` and `means_random` are the steps for the combinators.
* `Engine.executeRaw_render` is the theorem about engines.
-/

namespace MenuActions

open Schedule Grammar

namespace Executor

/-! ## In place and in the foreground -/

/-- A process goes from one state to another: straight on the random pool, and elsewhere in the
foreground of an idle machine. -/
def Goes (onRandom : Bool) (p : ActionProcess) (first : Runtime) (outcome : Outcome)
    (last : Runtime) : Prop :=
  if onRandom then p.Straight first outcome last else p.Yields first outcome last

section Goes

variable {onRandom : Bool} {p : ActionProcess} {first middle last : Runtime}
  {outcome final : Outcome}

theorem goes_of_straight (h : p.Straight first outcome last) : Goes onRandom p first outcome last := by
  cases onRandom with
  | false => exact h.yields
  | true => exact h

theorem goes_bind {k : Outcome → ActionProcess} (hp : Goes onRandom p first outcome middle)
    (hk : Goes onRandom (k outcome) middle final last) :
    Goes onRandom (p.bind k) first final last := by
  cases onRandom with
  | false => exact Process.Yields.bind hp hk
  | true => exact Process.Straight.bind hp hk

theorem goes_act {effect : Nat → Runtime → Runtime} {next : Runtime → ActionProcess}
    (heffect : ∀ now, effect now first = middle) (hnext : Goes onRandom (next first) middle final last) :
    Goes onRandom (.act effect next) first final last := by
  cases onRandom with
  | false => exact Process.Yields.act heffect hnext
  | true => exact .act heffect hnext

end Goes

/-- A process has a status and leaves a backend behind; the registry stays. -/
def Means (onRandom : Bool) (p : ActionProcess) (state : Runtime) (meant : Status × Backend) :
    Prop :=
  ∃ (outcome : Outcome) (last : Runtime), Goes onRandom p state outcome last ∧
    outcome.result.status = meant.1 ∧ last.backend = meant.2 ∧ last.registry = state.registry

section Means

variable {onRandom : Bool} {state : Runtime} {meant : Status × Backend}

/-- A process may turn its outcome into another one of the same status. -/
theorem means_bind {p : ActionProcess} {f : Outcome → ActionResult}
    (hf : ∀ outcome : Outcome, (f outcome).status = outcome.result.status)
    (h : Means onRandom p state meant) :
    Means onRandom (p.bind fun outcome => answer (f outcome)) state meant := by
  obtain ⟨outcome, last, hgoes, hstatus, hlast⟩ := h
  exact ⟨.ok (f outcome), last, goes_bind hgoes (goes_of_straight (.done _ _)),
    (hf outcome).trans hstatus, hlast⟩

/-- A change to the state that leaves the backend and the registry alone does not change what a process
means. -/
theorem means_act {effect : Nat → Runtime → Runtime} {next : Runtime → ActionProcess}
    {middle : Runtime} (heffect : ∀ now, effect now state = middle)
    (hregistry : middle.registry = state.registry)
    (hnext : Means onRandom (next state) middle meant) :
    Means onRandom (.act effect next) state meant := by
  obtain ⟨outcome, last, hgoes, hstatus, hbackend, hlast⟩ := hnext
  exact ⟨outcome, last, goes_act heffect hgoes, hstatus, hbackend, hlast.trans hregistry⟩

end Means

/-! ## Trees in order -/

variable {registry : Registry} {actor : Actor} {ctx : Context}

/-- A way to run texts that has the meaning of a tree for its text, under a registry. -/
def Runs (registry : Registry) (actor : Actor) (ctx : Context) (onRandom : Bool)
    (nest : String → ActionProcess) (tree : ScriptTree) : Prop :=
  ∀ state : Runtime, state.registry = registry →
    Means onRandom (nest (String.ofList tree.render)) state (tree.meaning actor ctx state.backend)

/-- The texts of some trees run one after the other as the trees do. -/
theorem goes_sequence {onRandom : Bool} {nest : String → ActionProcess} {trees : List ScriptTree}
    (hnest : ∀ tree ∈ trees, Runs registry actor ctx onRandom nest tree) {state : Runtime}
    (hstate : state.registry = registry) :
    ∃ (outcomes : List Outcome) (middle : Runtime),
      outcomes.map (fun outcome => outcome.result.status) =
        (ScriptTree.meaningAll actor ctx trees state.backend).1 ∧
      middle.backend = (ScriptTree.meaningAll actor ctx trees state.backend).2 ∧
      middle.registry = registry ∧
      ∀ (k : List Outcome → ActionProcess) (final : Outcome) (last : Runtime),
        Goes onRandom (k outcomes) middle final last →
          Goes onRandom (Process.sequence
            (((ScriptTree.renderAll trees).map String.ofList).map nest) k) state final last := by
  induction trees generalizing state with
  | nil => exact ⟨[], state, rfl, rfl, hstate, fun _ _ _ h => h⟩
  | cons tree trees ih =>
      obtain ⟨outcome, next, hfirst, hstatus, hbackend, hregistry⟩ :=
        hnest tree List.mem_cons_self state hstate
      obtain ⟨outcomes, middle, hstatuses, hmiddle, hlast, hrest⟩ :=
        ih (fun other hother => hnest other (List.mem_cons_of_mem _ hother))
          (hregistry.trans hstate)
      rw [hbackend] at hstatuses hmiddle
      refine ⟨outcome :: outcomes, middle, ?_, ?_, hlast, fun k final last hk => ?_⟩
      · rw [List.map_cons, hstatus, hstatuses]
        rfl
      · rw [hmiddle]
        rfl
      · exact goes_bind hfirst (hrest _ final last hk)

/-- The combined result of some trees has their combined status. -/
theorem means_sequence {onRandom : Bool} {nest : String → ActionProcess} {trees : List ScriptTree}
    (type : String) (f : ActionResult → ActionResult) (hf : ∀ result, (f result).status = result.status)
    (hnest : ∀ tree ∈ trees, Runs registry actor ctx onRandom nest tree) {state : Runtime}
    (hstate : state.registry = registry) :
    Means onRandom
      (Process.sequence (((ScriptTree.renderAll trees).map String.ofList).map nest)
        fun outcomes => answer (f (combine type outcomes))) state
      (ScriptTree.combine (ScriptTree.meaningAll actor ctx trees state.backend).1,
        (ScriptTree.meaningAll actor ctx trees state.backend).2) := by
  obtain ⟨outcomes, middle, hstatuses, hbackend, hregistry, hgoes⟩ := goes_sequence hnest hstate
  refine ⟨_, middle, hgoes _ _ _ (goes_of_straight (.done _ _)), ?_, hbackend,
    hregistry.trans hstate.symm⟩
  show (f (combine type outcomes)).status = _
  rw [hf, status_combine, hstatuses]

/-! ## Combinators -/

/-- A delay of zero runs its trees in order. -/
theorem means_delay {onRandom : Bool} {nest : String → ActionProcess} {trees : List ScriptTree}
    (later : String → ActionProcess) (maxMs : Nat) (hne : trees ≠ [])
    (hnest : ∀ tree ∈ trees, Runs registry actor ctx onRandom nest tree) {state : Runtime}
    (hstate : state.registry = registry) :
    Means onRandom
      (runDelay nest later maxMs (String.ofList (ScriptTree.delayText (ScriptTree.renderAll trees))))
      state ((ScriptTree.delay trees).meaning actor ctx state.backend) := by
  have hempty : ((ScriptTree.renderAll trees).map String.ofList).isEmpty = false := by
    cases trees with
    | nil => exact absurd rfl hne
    | cons tree trees => rfl
  unfold runDelay
  rw [String.toList_ofList, ScriptTree.read_delayText_data]
  simp only [if_true, hempty, Bool.false_eq_true, if_false]
  rw [ScriptTree.meaning]
  exact means_sequence Delay.typeName id (fun _ => rfl) hnest hstate

/-- No tree has the text of a random block, so none of them is passed over in a branch. -/
theorem filter_renderAll (trees : List ScriptTree) :
    (((ScriptTree.renderAll trees).map String.ofList).filter fun entry =>
      !Block.isRandom entry.toList) = (ScriptTree.renderAll trees).map String.ofList := by
  rw [List.filter_eq_self]
  intro entry hentry
  rw [ScriptTree.renderAll_eq_map, List.map_map] at hentry
  obtain ⟨tree, -, rfl⟩ := List.mem_map.mp hentry
  rw [Function.comp_apply, String.toList_ofList, ScriptTree.isRandom_render]
  rfl

/-- A branch that is selected runs its trees in order; without any, it succeeds. -/
theorem means_branch {onRandom : Bool} {nest : String → ActionProcess} {trees : List ScriptTree}
    (outcome : Bool) (htrees : ∀ tree ∈ trees, Runs registry actor ctx onRandom nest tree)
    {state : Runtime} (hstate : state.registry = registry) :
    Means onRandom
      (if ((ScriptTree.renderAll trees).map String.ofList).isEmpty then
        answer ((ActionResult.success MessageKey.conditionalNoBranch).put "outcome" (.bool outcome))
      else
        Process.sequence (((ScriptTree.renderAll trees).map String.ofList).map nest)
          fun outcomes => answer ((combine "conditional" outcomes).put "outcome" (.bool outcome)))
      state
      (ScriptTree.branch trees.isEmpty (ScriptTree.meaningAll actor ctx trees state.backend)) := by
  cases trees with
  | nil => exact ⟨_, state, goes_of_straight (.done _ _), rfl, rfl, rfl⟩
  | cons tree trees =>
      exact means_sequence "conditional" (fun result => result.put "outcome" (.bool outcome))
        (fun _ => rfl) htrees hstate

/-- A conditional action runs the trees of the branch that its condition selects. How deep it is nested
makes no difference to the condition. -/
theorem means_conditional {onRandom : Bool} {nest : String → ActionProcess} {condition : String}
    {expression : Expression} {whenTrue whenFalse : List ScriptTree} (depth : Nat)
    (hread : Expression.read condition.toList = .ok expression)
    (htrue : ∀ tree ∈ whenTrue, Runs registry actor ctx onRandom nest tree)
    (hfalse : ∀ tree ∈ whenFalse, Runs registry actor ctx onRandom nest tree) {state : Runtime}
    (hstate : state.registry = registry) :
    Means onRandom
      (runConditional nest state.toWorld actor { ctx with depth := depth } (String.ofList
        (Conditional.writeData condition.toList (ScriptTree.renderAll whenTrue)
          (ScriptTree.renderAll whenFalse)))) state
      ((ScriptTree.check condition whenTrue whenFalse).meaning actor ctx state.backend) := by
  have hholds : ScriptTree.holds condition actor ctx state.backend =
      expression.evaluate (holds state.backend actor { ctx with depth := depth }) := by
    rw [ScriptTree.holds, hread]
    rfl
  unfold runConditional
  rw [String.toList_ofList, Conditional.readData_writeData _ _ hread, ScriptTree.meaning, hholds]
  simp only
  cases expression.evaluate (holds state.backend actor { ctx with depth := depth }) with
  | true =>
      simp only [if_true, filter_renderAll]
      exact means_branch true htrue hstate
  | false =>
      simp only [Bool.false_eq_true, if_false, filter_renderAll]
      exact means_branch false hfalse hstate

/-- The only entry of a draw is drawn, wherever the draw falls. -/
theorem select_single (action : String) (position : Float) :
    Weighted.select [⟨action, 1.0⟩] position = some ⟨action, 1.0⟩ := by
  have htotal : ((0.0 + 1.0 : Float) > 0.0) ∧ (0.0 + 1.0 : Float).isFinite = true := by decide
  have hpick : ∀ draw, Weighted.pick Weighted.weight draw 0.0 [⟨action, 1.0⟩] =
      some ⟨action, 1.0⟩ := by
    intro draw
    rw [Weighted.pick, Weighted.firstReaching, Weighted.firstReaching]
    split
    · rfl
    · rfl
  rw [Weighted.select, Weighted.choose]
  simp only [List.foldl_cons, List.foldl_nil, htotal.1, htotal.2, decide_true, Bool.and_self,
    if_true]
  exact hpick _

/-- A draw among one tree runs that tree, on the random pool. -/
theorem means_random {config : Config} {onRandom : Bool} {nest : String → ActionProcess}
    {tree : ScriptTree} (hnest : Runs registry actor ctx true nest tree) {state : Runtime}
    (world : World) (hstate : state.registry = registry) :
    Means onRandom
      (runRandom config nest onRandom world (String.ofList (BracketList.write [tree.render])))
      state ((ScriptTree.pick tree).meaning actor ctx state.backend) := by
  unfold runRandom
  rw [ScriptTree.entries_write, ScriptTree.meaning]
  refine means_act (fun _ => rfl) rfl ?_
  rw [select_single]
  have hdrawn : ∀ outcome : Outcome, (drawn ⟨String.ofList tree.render, 1.0⟩ outcome).status =
      outcome.result.status := fun _ => rfl
  have hbody := hnest { state with draws := state.draws.tail } hstate
  cases onRandom with
  | true => exact means_bind hdrawn hbody
  | false =>
      obtain ⟨outcome, last, hgoes, hstatus, hlast⟩ := hbody
      exact ⟨.ok (drawn _ outcome), last,
        Process.Yields.spawn (fun _ => rfl) hgoes (Process.Yields.done _ _),
        (hdrawn outcome).trans hstatus, hlast⟩

/-! ## Dispatch -/

/-- Without pauses, the values of a leaf run in order. -/
theorem means_leaf {onRandom : Bool} (action : ValueAction) {values : List String}
    (hne : values ≠ []) (state : Runtime) :
    Means onRandom
      (runValues action 0 actor (String.ofList (ScriptTree.leafText action values))) state
      ((ScriptTree.leaf action values).meaning actor ctx state.backend) := by
  obtain ⟨outcome, hrun, hstatus⟩ := straight_run action actor action.typeName hne state
  unfold runValues
  rw [ScriptTree.readTexts_leafText, ScriptTree.meaning]
  exact ⟨outcome, _, goes_of_straight hrun, hstatus, rfl, rfl⟩

/-- An action whose data has no tokens means what its handler makes of the data as it is. -/
theorem means_dispatchWith {config : Config} {nest : Nat → Bool → String → ActionProcess}
    {parent : Option Nat} {onRandom : Bool} {action : Action} {handler : Handler} {state : Runtime}
    {meant : Status × Backend} (hlookup : state.registry.lookup action.type = some handler)
    (hfree : Template.TokenFree action.data.toList)
    (hrun : ∀ noted : Runtime, noted.toWorld = state.toWorld →
      Means onRandom (runHandler config (nest state.dispatches.length) onRandom state.toWorld actor
        ctx action.data handler) noted meant) :
    Means onRandom (dispatchWith config nest parent onRandom actor action ctx) state meant := by
  have hdata : (fill state.toWorld actor ctx action).data = action.data := by
    show Placeholder.resolve _ actor ctx action.data = action.data
    rw [Placeholder.resolve, Template.fill_eq_self hfree, String.ofList_toList]
  have hnoted := @noteDispatch_toWorld actor ctx action parent state
  unfold dispatchWith
  refine means_act (fun _ => rfl) (congrArg World.registry hnoted) ?_
  simp only [hlookup, hdata]
  exact means_bind (fun _ => rfl) (hrun _ hnoted)

/-- Runs a text at some depth of a context, with some levels left. -/
def runAt (config : Config) (actor : Actor) (ctx : Context) (levels depth : Nat)
    (parent : Option Nat) (onRandom : Bool) (raw : String) : ActionProcess :=
  dispatch config levels parent onRandom actor (Action.read config.defaultType raw)
    { ctx with depth := depth }

/-- Whether or not a level is left, a text runs through its handler. -/
theorem means_runAt {config : Config} {parent : Option Nat} {onRandom : Bool} {raw : String}
    {action : Action} {handler : Handler} {state : Runtime} {meant : Status × Backend}
    {levels depth : Nat} (hread : Action.read config.defaultType raw = action)
    (hlookup : state.registry.lookup action.type = some handler)
    (hfree : Template.TokenFree action.data.toList)
    (hrun : ∀ (nest : Bool → String → ActionProcess) (noted : Runtime),
      noted.toWorld = state.toWorld →
      Means onRandom (runHandler config nest onRandom state.toWorld actor { ctx with depth := depth }
        action.data handler) noted meant) :
    Means onRandom (runAt config actor ctx levels depth parent onRandom raw) state meant := by
  rw [runAt, hread]
  cases levels with
  | zero => exact means_dispatchWith hlookup hfree fun noted hnoted => hrun _ noted hnoted
  | succ levels => exact means_dispatchWith hlookup hfree fun noted hnoted => hrun _ noted hnoted

/-- With a level left, the actions nested in a text run one level deeper with one level less. -/
theorem means_runAt_succ {config : Config} {parent : Option Nat} {onRandom : Bool} {raw : String}
    {action : Action} {handler : Handler} {state : Runtime} {meant : Status × Backend}
    {levels depth : Nat} (hread : Action.read config.defaultType raw = action)
    (hlookup : state.registry.lookup action.type = some handler)
    (hfree : Template.TokenFree action.data.toList)
    (hrun : ∀ (parent : Option Nat) (noted : Runtime), noted.toWorld = state.toWorld →
      Means onRandom (runHandler config (runAt config actor ctx levels (depth + 1) parent) onRandom
        state.toWorld actor { ctx with depth := depth } action.data handler) noted meant) :
    Means onRandom (runAt config actor ctx (levels + 1) depth parent onRandom raw) state meant := by
  rw [runAt, hread]
  exact means_dispatchWith hlookup hfree fun noted hnoted => hrun _ noted hnoted

/-- The text of a tree that nests others means the tree when its handler does, with the levels that
the others need left below it. -/
theorem runs_nested {config : Config} {parent : Option Nat} {onRandom : Bool} {tree : ScriptTree}
    {action : Action} {handler : Handler} {inner levels depth : Nat}
    (hread : Action.read config.defaultType (String.ofList tree.render) = action)
    (hlookup : (Registry.builtin config).lookup action.type = some handler)
    (hfree : Template.TokenFree action.data.toList) (hlevels : inner + 1 ≤ levels)
    (hrun : ∀ (rest : Nat) (parent : Option Nat) (noted : Runtime), inner ≤ rest →
      noted.registry = Registry.builtin config →
      Means onRandom (runHandler config (runAt config actor ctx rest (depth + 1) parent) onRandom
          noted.toWorld actor { ctx with depth := depth } action.data handler) noted
        (tree.meaning actor ctx noted.backend)) :
    Runs (Registry.builtin config) actor ctx onRandom
      (runAt config actor ctx levels depth parent onRandom) tree := by
  intro state hstate
  obtain ⟨rest, rfl⟩ := Nat.exists_eq_add_of_le' (Nat.le_trans (Nat.le_add_left 1 _) hlevels)
  refine means_runAt_succ hread (by rw [hstate]; exact hlookup) hfree fun parent noted hnoted => ?_
  have hregistry : noted.registry = Registry.builtin config :=
    (congrArg World.registry hnoted).trans hstate
  rw [← hnoted]
  exact hrun rest parent noted (Nat.le_of_succ_le_succ hlevels) hregistry

/-- Whatever level and pool it runs on, the text of a tree means the tree, as long as the levels that
are left suffice for its nesting. -/
theorem means_render {config : Config} (hpacing : config.pacing = Pacing.zero) {tree : ScriptTree}
    (hwf : tree.WellFormed) :
    ∀ (levels depth : Nat) (parent : Option Nat) (onRandom : Bool), tree.nesting ≤ levels →
      Runs (Registry.builtin config) actor ctx onRandom
        (runAt config actor ctx levels depth parent onRandom) tree := by
  -- The depth and the levels change on the way down; the rest of the context stays.
  induction hwf with
  | @leaf action values hne hfree =>
      intro levels depth parent onRandom _ state hstate
      have hlookup : state.registry.lookup action.typeName = some (.value action 0) := by
        rw [hstate, Registry.lookup_builtin_value, hpacing]
        rfl
      have hdata : Template.TokenFree (String.ofList (ScriptTree.leafText action values)).toList := by
        rw [String.toList_ofList]
        exact ScriptTree.tokenFree_leafText hfree
      rw [ScriptTree.render]
      refine means_runAt (ScriptTree.read_leafText _ _ _) hlookup hdata fun _ noted hnoted => ?_
      rw [← hnoted, runHandler]
      exact means_leaf action hne noted
  | @delay trees hne htrees ih =>
      intro levels depth parent onRandom hlevels
      refine runs_nested (ScriptTree.read_delayText _ _) (Registry.lookup_builtin_delay config) ?_
        hlevels fun rest parent noted hrest hnoted => ?_
      · rw [String.toList_ofList]
        exact ScriptTree.tokenFree_delayText (ScriptTree.tokenFree_renderAll fun tree htree =>
          ScriptTree.tokenFree_render (htrees tree htree))
      · rw [runHandler]
        refine means_delay _ _ hne (fun tree htree => ih tree htree rest _ parent onRandom ?_) hnoted
        exact Nat.le_trans (ScriptTree.nesting_le_nestingAll htree) hrest
  | @check condition whenTrue whenFalse expression hread hfree htrue hfalse ihtrue ihfalse =>
      intro levels depth parent onRandom hlevels
      refine runs_nested (ScriptTree.read_checkText _ _ _ _) (Registry.lookup_builtin_check config) ?_
        hlevels fun rest parent noted hrest hnoted => ?_
      · rw [String.toList_ofList]
        exact Template.tokenFree_writeData hfree
          (ScriptTree.tokenFree_renderAll fun tree htree =>
            ScriptTree.tokenFree_render (htrue tree htree))
          (ScriptTree.tokenFree_renderAll fun tree htree =>
            ScriptTree.tokenFree_render (hfalse tree htree))
      · rw [runHandler]
        refine means_conditional depth hread
          (fun tree htree => ihtrue tree htree rest _ parent onRandom ?_)
          (fun tree htree => ihfalse tree htree rest _ parent onRandom ?_) hnoted
        · have hle := ScriptTree.nesting_le_nestingAll htree
          omega
        · have hle := ScriptTree.nesting_le_nestingAll htree
          omega
  | @pick tree htree ih =>
      intro levels depth parent onRandom hlevels
      refine runs_nested (ScriptTree.read_pickText _ _) (Registry.lookup_builtin_random config) ?_
        hlevels fun rest parent noted hrest hnoted => ?_
      · rw [String.toList_ofList]
        refine Template.tokenFree_write fun text htext => ?_
        rw [List.mem_singleton.mp htext]
        exact ScriptTree.tokenFree_render htree
      · rw [runHandler]
        exact means_random (ih rest (depth + 1) parent true hrest) _ hnoted

end Executor

namespace Engine

/-- Running the text of a tree on an idle engine with the builtin handlers and without pauses makes the
service calls that interpreting the tree makes, in the same order, and answers with the same status.
The engine is idle again afterwards. -/
theorem executeRaw_render {engine : Engine} {tree : ScriptTree} {actor : Actor} {ctx : Context}
    (hidle : engine.machine.Idle) (hregistry : engine.registry = Registry.builtin engine.config)
    (hpacing : engine.config.pacing = Pacing.zero) (hdepth : ctx.depth = 0)
    (hwf : tree.WellFormed) (hnesting : tree.nesting ≤ engine.config.maxNestingDepth) :
    (engine.executeRaw actor (String.ofList tree.render) ctx).1.status =
        (tree.meaning actor ctx engine.backend).1 ∧
      (engine.executeRaw actor (String.ofList tree.render) ctx).2.backend =
        (tree.meaning actor ctx engine.backend).2 ∧
      (engine.executeRaw actor (String.ofList tree.render) ctx).2.machine.Idle := by
  have hlevels : tree.nesting ≤ Executor.levelsBelow engine.config ctx := by
    rw [Executor.levelsBelow, hdepth]
    exact hnesting
  obtain ⟨outcome, last, hgoes, hstatus, hbackend, -⟩ :=
    Executor.means_render hpacing hwf _ ctx.depth none false hlevels engine.machine.world hregistry
  obtain ⟨after, hrun, hafter, hworld⟩ := hgoes engine.machine hidle rfl
  have hexecute : engine.executeRaw actor (String.ofList tree.render) ctx =
      (outcome.result, { engine with machine := after }) := by
    unfold executeRaw runProcess
    have hprocess : Executor.executeRaw engine.config actor (String.ofList tree.render) ctx =
        Executor.runAt engine.config actor ctx (Executor.levelsBelow engine.config ctx) ctx.depth none
          false (String.ofList tree.render) := rfl
    rw [hprocess, hrun]
  rw [hexecute]
  refine ⟨hstatus, ?_, hafter⟩
  show after.world.backend = _
  rw [hworld]
  exact hbackend

/-- A chain of two messages and a draw inside a condition, with quotes, backslashes, a brace and a
keyword in their texts, run on a new engine. -/
theorem executeRaw_render_chain :
    let config : Config := { Config.standard with pacing := Pacing.zero }
    let engine := start config ⟨Backend.empty, Registry.builtin config, []⟩
    let tree := ScriptTree.delay
      [.leaf .message ["say \"hi\" \\o/", "- \x7b"],
        .check "permission:vip" [] [.pick (.leaf .message ["true: [ 1:2 ]"])]]
    let actor : Actor := ⟨"1", "Ann", none⟩
    (engine.executeRaw actor (String.ofList tree.render) Context.empty).1.status = .success ∧
      (engine.executeRaw actor (String.ofList tree.render) Context.empty).2.backend.messages =
        ["say \"hi\" \\o/", "- \x7b", "true: [ 1:2 ]"] := by
  intro config engine tree actor
  have hread : Expression.read "permission:vip".toList = .ok ⟨.permission "vip", []⟩ := by rfl
  have hwf : tree.WellFormed := by
    refine .delay (by simp) fun part hpart => ?_
    rcases List.mem_cons.mp hpart with rfl | hpart
    · exact .leaf _ (by simp) (by decide)
    rcases List.mem_cons.mp hpart with rfl | hpart
    · refine .check hread (by decide) (by simp) fun inner hinner => ?_
      rw [List.mem_singleton.mp hinner]
      exact .pick (.leaf _ (by simp) (by decide))
    · exact absurd hpart List.not_mem_nil
  have hidle : engine.machine.Idle :=
    Machine.idle_start _ (fun pool => by cases pool <;> rfl) (fun pool => by cases pool <;> decide)
  obtain ⟨hstatus, hbackend, -⟩ :=
    @executeRaw_render engine tree actor Context.empty hidle rfl rfl rfl hwf (by decide)
  have hmeant : (tree.meaning actor Context.empty engine.backend).1 = .success ∧
      (tree.meaning actor Context.empty engine.backend).2.messages =
        ["say \"hi\" \\o/", "- \x7b", "true: [ 1:2 ]"] := by
    decide +kernel
  exact ⟨hstatus.trans hmeant.1, (congrArg Backend.messages hbackend).trans hmeant.2⟩

end Engine

end MenuActions
