import MenuActions.Proofs.Engine.Chronicles
import MenuActions.Proofs.Engine.ZeroDelay

/-!
# The status of a definition

The values of an entry are folded into the result of the entry, and the results of the entries into that
of the definition, which sees of each entry only whether anything succeeded in it.  So the status of a
definition covers its entries, each of which counts as succeeded when one of its values did; and it covers
the values of all entries exactly when none of them failed, or some entry failed as a whole
(`executeDefinition_status`).

`execute_listed` is the lemma on one entry, whatever runs on the pools meanwhile, and
`Undisturbed.execute` says that nothing has changed for the next one.
-/

namespace MenuActions

open Schedule

/-- Combined outcomes count as succeeded when one of them does. -/
theorem Executor.succeeded_combine (type : String) {outcomes : List Outcome} (h : outcomes ≠ []) :
    (combine type outcomes).succeeded = outcomes.any fun outcome => outcome.result.succeeded := by
  unfold combine
  split
  · rw [List.any_cons, List.any_nil, Bool.or_false]
  · rw [ActionResult.succeeded_aggregate, List.any_map]
    rfl

namespace Engine

/-- What actions are read with. -/
def settings (engine : Engine) : Registry × Table String :=
  (engine.registry, engine.backend.placeholders)

/-- An engine between two operations, whatever was triggered on it, without an interrupt. -/
structure Undisturbed (engine : Engine) : Prop where
  crowded : Crowded engine.config ⟨engine.machine, []⟩
  interrupt : engine.machine.interrupt = none

/-- An action that an engine reads as a value action with some values. -/
structure Listed (engine : Engine) (actor : Actor) (ctx : Context) (action : Action)
    (entry : ValueAction × List String) : Prop where
  handler : ∃ pacing, engine.registry.lookup action.type = some (.value entry.1 pacing)
  read : Handler.readTexts entry.1.typeName (engine.resolve actor ctx action.data) = .ok entry.2
  nonempty : entry.2 ≠ []

/-- The values of an entry were run, all of them in order, and this came of them. -/
structure Ran (actor : Actor) (entry : ValueAction × List String) (row : List ValueRun) : Prop where
  genuine : ∀ run ∈ row, run.Genuine entry.1 actor
  inOrder : row.map ValueRun.value = entry.2
  nonempty : row ≠ []

/-- The result of an entry. -/
def entryResult (entry : ValueAction × List String) (row : List ValueRun) : ActionResult :=
  Executor.combine entry.1.typeName (row.map ValueRun.outcome)

variable {engine after : Engine} {actor : Actor} {ctx : Context} {action : Action}
  {entry : ValueAction × List String}

/-- Actions are read the same as long as the settings are. -/
theorem Listed.of_settings (h : engine.Listed actor ctx action entry)
    (hsettings : after.settings = engine.settings) : after.Listed actor ctx action entry := by
  obtain ⟨hregistry, hplaceholders⟩ := Prod.mk.inj hsettings
  refine ⟨?_, ?_, h.nonempty⟩
  · rw [hregistry]
    exact h.handler
  · rw [resolve, hplaceholders]
    exact h.read

/-- Running an action leaves an engine undisturbed, with the same settings. -/
theorem Undisturbed.execute (h : engine.Undisturbed) (actor : Actor) (action : Action) (ctx : Context) :
    (engine.execute actor action ctx).2.Undisturbed ∧
      (engine.execute actor action ctx).2.settings = engine.settings := by
  have hreaches := fun changes => h.crowded.reaches_execute changes actor action ctx
  have hinterrupt : (engine.execute actor action ctx).2.machine.interrupt = engine.machine.interrupt := by
    rw [Engine.execute, runProcess_snd]
    exact (Machine.course_run _ engine.machine).1
  have hconfig : (engine.execute actor action ctx).2.config = engine.config := by
    rw [Engine.execute, runProcess_snd]
  refine ⟨⟨?_, hinterrupt.trans h.interrupt⟩, ?_⟩
  · obtain ⟨world, hstart⟩ := h.crowded
    rw [hconfig]
    exact ⟨world, hstart.trans (hreaches _)⟩
  · -- Neither an attempt nor what is beside it touches the registry or the placeholders.
    refine h.crowded.same (f := fun state => (state.registry, state.backend.placeholders))
      (Executor.admits_every (fun before after hbackend hregistry => ?_) fun action actor value state => ?_)
      (hreaches _)
    · rw [hbackend, hregistry]
    · obtain ⟨calls, haccepts, -⟩ := (action.attempted_attempt actor value state.backend).accepts
      rw [haccepts.placeholders]

/-- An action that is read as a value action runs all its values. -/
theorem execute_listed (h : engine.Undisturbed) (hlisted : engine.Listed actor ctx action entry) :
    ∃ row, Ran actor entry row ∧ (engine.execute actor action ctx).1 = entryResult entry row := by
  obtain ⟨pacing, hlookup⟩ := hlisted.handler
  let noted := Executor.noted actor action ctx none engine.machine
  let values := Executor.runValues entry.1 pacing actor (engine.resolve actor ctx action.data)
  have hrun : (Executor.resultOf (Executor.execute engine.config actor action ctx) engine.machine).1 =
      (Executor.resultOf values noted).1 :=
    congrArg Prod.fst (Executor.resultOf_dispatch hlookup none false)
  -- The action is answered, so its values have come to an end.
  have hanswered := (h.crowded.answers actor action ctx).answered
  rw [← Option.isSome_map (f := Outcome.result)] at hanswered
  obtain ⟨outcome, houtcome⟩ : ∃ outcome, (noted.run values).1 = some outcome := by
    have hvalues : (Executor.resultOf values noted).1.isSome := by
      rw [← hrun]
      exact hanswered
    rwa [Executor.resultOf, Option.isSome_map, Option.isSome_iff_exists] at hvalues
  obtain ⟨-, trail, hcourse⟩ := noted.course_run values
  rw [houtcome] at hcourse
  rcases Executor.course_runValues hcourse with ⟨error, hread, -⟩ | ⟨texts, row, hread, hthrough⟩
  · rw [hlisted.read] at hread
    exact absurd hread (by simp)
  · obtain rfl := Except.ok.inj (hlisted.read.symm.trans hread)
    have hclear : ¬noted.Learns true := fun hlearns => hlearns rfl h.interrupt
    obtain ⟨hinOrder, hresult⟩ := (hthrough.ended outcome rfl).of_clear hclear hlisted.nonempty
    have hne : row ≠ [] := by
      rintro rfl
      exact hlisted.nonempty hinOrder.symm
    refine ⟨row, ⟨hthrough.genuine, hinOrder, hne⟩, ?_⟩
    have hfirst : (Executor.resultOf values noted).1 = some outcome.result := by
      rw [Executor.resultOf, houtcome]
      rfl
    rw [Engine.execute, runProcess_fst, hrun, hfirst, Option.getD_some, hresult]
    rfl

/-- Entries that are read as value actions are run one after the other. -/
theorem executeActions_listed {actions : List Action} {entries : List (ValueAction × List String)}
    (h : engine.Undisturbed) (hlisted : List.Forall₂ (engine.Listed actor ctx) actions entries) :
    ∃ table, List.Forall₂ (Ran actor) entries table ∧
      (engine.executeActions actor actions ctx).1 = List.zipWith entryResult entries table := by
  induction actions generalizing engine entries with
  | nil =>
      cases hlisted
      exact ⟨[], .nil, rfl⟩
  | cons action actions ih =>
      cases hlisted with
      | cons hfirst hrest =>
          obtain ⟨row, hrow, hresult⟩ := execute_listed h hfirst
          -- The others are read on the engine that the first one leaves behind.
          obtain ⟨hafter, hsettings⟩ := h.execute actor action ctx
          obtain ⟨table, htable, hresults⟩ :=
            ih hafter (hrest.imp fun _ _ hlisted => hlisted.of_settings hsettings)
          refine ⟨row :: table, .cons hrow htable, ?_⟩
          rw [executeActions, List.zipWith_cons_cons, ← hresult, ← hresults]

/-- An entry counts as succeeded when one of its values did. -/
theorem succeeded_entryResult (entry : ValueAction × List String) {row : List ValueRun} (h : row ≠ []) :
    (entryResult entry row).succeeded = (row.map ValueRun.succeeded).any id := by
  rw [entryResult, Executor.succeeded_combine _ (by simpa using h), List.any_map, List.any_map]
  rfl

theorem succeeded_zipWith_entryResult {entries : List (ValueAction × List String)}
    {table : List (List ValueRun)} (h : List.Forall₂ (Ran actor) entries table) :
    (List.zipWith entryResult entries table).map ActionResult.succeeded =
      (table.map fun row => row.map ValueRun.succeeded).map fun row => row.any id := by
  induction h with
  | nil => rfl
  | cons hrow _ ih =>
      rw [List.zipWith_cons_cons, List.map_cons, List.map_cons, List.map_cons, ih,
        succeeded_entryResult _ hrow.nonempty]

theorem nonempty_of_ran {entries : List (ValueAction × List String)} {table : List (List ValueRun)}
    (h : List.Forall₂ (Ran actor) entries table) : ∀ row ∈ table, row ≠ [] := by
  induction h with
  | nil => exact fun _ hrow => absurd hrow List.not_mem_nil
  | cons hfirst _ ih => exact List.forall_mem_cons.mpr ⟨hfirst.nonempty, ih⟩

/-- The result of two or more actions is their aggregate. -/
theorem definitionResult_of_two_le {results : List ActionResult} (h : 2 ≤ results.length) :
    definitionResult results = .aggregate "definition" results results.length := by
  unfold definitionResult
  split
  · exact absurd h (by simp)
  · exact absurd h (by simp)
  · rfl

/-- The status of a definition of two or more value actions, each with one or more values, when no
interrupt has been raised.  Every value of every entry is run; the status covers the entries, each of which
counts as succeeded when one of its values did, and it covers the values themselves exactly when all values
of some entry failed, or no value of any entry. -/
theorem executeDefinition_status (h : engine.Undisturbed) {definition : Definition}
    {entries : List (ValueAction × List String)} (htwo : 2 ≤ definition.actions.length)
    (hlisted : List.Forall₂ (engine.Listed actor ctx) definition.actions entries) :
    ∃ table : List (List ValueRun), List.Forall₂ (Ran actor) entries table ∧
      (engine.executeActions actor definition.actions ctx).1 = List.zipWith entryResult entries table ∧
      let status := (engine.executeDefinition actor definition ctx).1.status
      let successes := table.map fun row => row.map ValueRun.succeeded
      status.Covers (successes.map fun row => row.any id) ∧
        (status.Covers successes.flatten ↔
          (∃ row ∈ successes, true ∉ row) ∨ false ∉ successes.flatten) := by
  obtain ⟨table, htable, hresults⟩ := executeActions_listed h hlisted
  refine ⟨table, htable, hresults, ?_⟩
  intro status successes
  have hsucceeded := succeeded_zipWith_entryResult htable
  rw [← hresults] at hsucceeded
  have hlength : (engine.executeActions actor definition.actions ctx).1.length =
      definition.actions.length := by
    rw [hresults, List.length_zipWith, ← htable.length_eq, ← hlisted.length_eq, Nat.min_self]
  -- The outer fold counts the entries by whether they count as succeeded.
  have hcovers : status.Covers (successes.map fun row => row.any id) := by
    have hstatus : status = Status.ofCounts
        ((successes.map fun row => row.any id).countP id)
        (successes.map fun row => row.any id).length := by
      show (definitionResult (engine.executeActions actor definition.actions ctx).1).status = _
      rw [definitionResult_of_two_le (by rwa [hlength]), ← hsucceeded, List.countP_map, List.length_map]
      rfl
    rw [hstatus]
    refine Status.covers_ofCounts fun hnil => ?_
    rw [← hsucceeded, List.map_eq_nil_iff, ← List.length_eq_zero_iff, hlength] at hnil
    omega
  refine ⟨hcovers, hcovers.covers_flatten_iff fun row hrow => ?_⟩
  obtain ⟨runs, hruns, rfl⟩ := List.mem_map.mp hrow
  simpa using nonempty_of_ran htable runs hruns

/-- An engine without pauses whose services refuse a text. -/
def refusing : Engine :=
  let config := { Config.standard with pacing := .zero }
  start config ⟨{ Backend.empty with refusedTexts := ["bad"] }, Registry.builtin config, []⟩

/-- Two messages, the first one with two values. -/
def greetings : Definition :=
  ⟨[⟨"message", "[ \"a\", \"bad\" ]"⟩, ⟨"message", "ok"⟩]⟩

theorem executeDefinition_status_greetings :
    let ada : Actor := ⟨"1", "Ada", none⟩
    let entries := [(ValueAction.message, ["a", "bad"]), (ValueAction.message, ["ok"])]
    refusing.Undisturbed ∧ 2 ≤ greetings.actions.length ∧
      List.Forall₂ (refusing.Listed ada .empty) greetings.actions entries ∧
      ∃ table : List (List ValueRun), List.Forall₂ (Ran ada) entries table ∧
        (refusing.executeDefinition ada greetings .empty).1.status.Covers
          ((table.map fun row => row.map ValueRun.succeeded).map fun row => row.any id) := by
  intro ada entries
  have hundisturbed : refusing.Undisturbed := ⟨⟨_, .refl⟩, rfl⟩
  have hlookup : refusing.registry.lookup "message" = some (.value .message 0) := by decide +kernel
  have hfirst : Handler.readTexts "message" (refusing.resolve ada .empty "[ \"a\", \"bad\" ]") =
      .ok ["a", "bad"] := by decide +kernel
  have hsecond : Handler.readTexts "message" (refusing.resolve ada .empty "ok") = .ok ["ok"] := by
    decide +kernel
  have hlisted : List.Forall₂ (refusing.Listed ada .empty) greetings.actions entries :=
    .cons ⟨⟨_, hlookup⟩, hfirst, by decide⟩ (.cons ⟨⟨_, hlookup⟩, hsecond, by decide⟩ .nil)
  obtain ⟨table, htable, -, hcovers, -⟩ := executeDefinition_status hundisturbed (by decide) hlisted
  exact ⟨hundisturbed, by decide, hlisted, table, htable, hcovers⟩

/-- A definition counts as a success although one of its values was refused: the entry of that value
succeeded in part. -/
theorem executeDefinition_success_refused :
    let ada : Actor := ⟨"1", "Ada", none⟩
    (refusing.executeDefinition ada greetings .empty).1.status = .success ∧
      (refusing.executeActions ada greetings.actions .empty).1.map ActionResult.status =
        [.partialSuccess, .success] ∧
      (refusing.executeDefinition ada greetings .empty).2.backend.messages = ["a", "ok"] ∧
      (ValueAction.message.attempt ada "bad" refusing.backend).1.result.succeeded = false := by
  decide +kernel

end Engine

end MenuActions
