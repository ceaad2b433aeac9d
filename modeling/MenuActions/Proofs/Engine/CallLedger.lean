import MenuActions.Proofs.Engine.Chronicles
import MenuActions.Proofs.Executor.ValueCalls

/-!
# The ledger of an engine

Whatever actions run side by side on an engine, the calls that its services have recorded are those of its
value lists, and of each list one for every value that succeeded, unless it only asked for a balance.
Replayed in order over the balances at the beginning, they give the balances now.

`calls_match_outcomes` puts together what an attempt does (`attempted_attempt`), what a value list has
called wherever it has come (`matched_runValues`), and the chronicle of a crowd, in which every process
consists of value lists and of deeds beside them, and which books what it calls.  The host may do what it
likes as long as it books nothing itself.
-/

namespace MenuActions

open Schedule

/-- The host changes the world without calling or paying. -/
def Runtime.Unbooked (state later : Runtime) : Prop :=
  state.backend.Books [] later.backend

/-- Whoever books what it calls along some deeds has booked everything that was called. -/
theorem Schedule.Leads.books {first last : Runtime} {trail : List (Deed Runtime PoolName Outcome)}
    (h : Leads first trail last)
    (hbooks : ∀ before after, .changes before after ∈ trail →
      ∃ calls, before.backend.Books calls after.backend) :
    first.backend.Books (callsOf trail) last.backend := by
  induction h with
  | nil w => exact .refl _
  | changes _ ih =>
      obtain ⟨calls, hcalls⟩ := hbooks _ _ List.mem_cons_self
      have hrest := ih fun before after hmem => hbooks before after (List.mem_cons_of_mem _ hmem)
      rw [callsOf, List.flatMap_cons, Deed.calls_changes hcalls]
      exact hcalls.trans hrest
  | starts _ ih => exact ih fun before after hmem => hbooks before after (List.mem_cons_of_mem _ hmem)

/-- Every change that an action makes books what it calls. -/
theorem Executor.admits_books :
    Admits (.every fun before after => ∃ calls, before.backend.Books calls after.backend) := by
  refine admits_every (fun before after hbackend _ => ⟨[], ?_⟩) fun action actor value state => ?_
  · rw [hbackend]
    exact .refl _
  · obtain ⟨calls, haccepts, -⟩ := (action.attempted_attempt actor value state.backend).accepts
    exact ⟨calls, haccepts.toBooks⟩

/-- An attempt succeeds with one call, or with none when a balance was asked for, or it fails and no call is
accepted. -/
theorem ValueAction.Attempted.cases_effect {action : ValueAction} {value : String} {b : Backend}
    {effect : Effect} (h : Attempted action value b effect) :
    (∃ result calls after, effect = (.ok result, after) ∧ b.Accepts calls after ∧
      calls.length = if action.asksBalance value then 0 else 1) ∨
    ∃ error after, effect = (.error error, after) ∧ b.Accepts [] after := by
  cases h with
  | accepted _ hasks hcall => exact Or.inl ⟨_, _, _, rfl, hcall, by rw [hasks]; rfl⟩
  | answered _ hasks => exact Or.inl ⟨_, [], b, rfl, .refl b, by rw [hasks]; rfl⟩
  | refused message hafter => exact Or.inr ⟨_, _, rfl, hafter⟩
  | unread reason _ => exact Or.inr ⟨_, b, rfl, .refl b⟩

namespace Engine

variable {config : Config} {world : World} {crowd : Crowd Runtime PoolName Outcome}
  {chronicle : Chronicle Runtime PoolName Outcome}

/-- Everyone in a chronicle has done value lists and what is beside them. -/
theorem narrative_trail {first state : Runtime}
    (h : chronicle.Accounts (Executor.Triggers config) first state) {i : Nat} {p : ActionProcess}
    (hp : chronicle.works[i]? = some p) : Executor.Narrative false (chronicle.trail (some i)) := by
  obtain ⟨q, hcourse⟩ := h.course i p hp
  exact (h.tells (fun _ hbegun => hbegun.tells Executor.admits_narrative) hp).part hcourse

/-- A chronicle in which the host books nothing books what was called. -/
theorem books_of_accounts {first state : Runtime}
    (h : chronicle.Accounts (Executor.Triggers config) first state)
    (hhost : ∀ deed ∈ chronicle.trail none, ∃ before after : Runtime,
      deed = .changes before after ∧ before.Unbooked after) :
    first.backend.Books (callsOf (chronicle.entries.map Prod.snd)) state.backend := by
  refine h.leads.books fun before after hmem => ?_
  obtain ⟨⟨owner, deed⟩, hentry, rfl⟩ := List.mem_map.mp hmem
  refine h.every (fun _ hbegun => hbegun.tells Executor.admits_books) hentry ?_
  rintro rfl
  obtain ⟨_, _, hdeed, hunbooked⟩ := hhost _ (Chronicle.mem_trail.mpr hentry)
  obtain ⟨rfl, rfl⟩ := Deed.changes.inj hdeed
  exact ⟨[], hunbooked⟩

/-- The host has called nothing. -/
theorem callsOf_host {trail : List (Deed Runtime PoolName Outcome)}
    (hhost : ∀ deed ∈ trail, ∃ before after : Runtime,
      deed = .changes before after ∧ before.Unbooked after) : callsOf trail = [] := by
  refine List.flatMap_eq_nil_iff.mpr fun deed hdeed => ?_
  obtain ⟨before, after, rfl, hunbooked⟩ := hhost deed hdeed
  exact Deed.calls_changes hunbooked

/-- Calls match outcomes.  Every value action, whatever the actor, the value and the backend, succeeds with
exactly one recorded call, or with none when it only asked for a balance, or it fails and leaves calls and
balances as they were, whatever other form of a command was tried.  So wherever a value list has come, its
calls are one for each value that succeeded, in order, and its details say which these are.  And of every
crowd that an engine comes to there is a chronicle: all that was recorded since the beginning are the calls
of value lists, and they lead from the balances at the beginning to those of the crowd. -/
theorem calls_match_outcomes
    (h : Crowd.Reaches (Executor.Triggers config) Runtime.Unbooked ⟨(start config world).machine, []⟩
      crowd) :
    (∀ (action : ValueAction) (actor : Actor) (value : String) (b : Backend),
      (∃ result calls after, action.attempt actor value b = (.ok result, after) ∧
        b.Accepts calls after ∧ calls.length = if action.asksBalance value then 0 else 1) ∨
      ∃ error after, action.attempt actor value b = (.error error, after) ∧ b.Accepts [] after) ∧
    (∀ (action : ValueAction) (pacing : Nat) (actor : Actor) (data : String) (learns : Bool → Prop)
        (trail : List (Deed Runtime PoolName Outcome)) (q : ActionProcess),
      (Executor.runValues action pacing actor data).Course learns trail q →
        (∃ error, Handler.readTexts action.typeName data = .error error ∧ trail = []) ∨
        ∃ values runs, Handler.readTexts action.typeName data = .ok values ∧
          Executor.Matched action actor values runs trail q) ∧
    ∃ chronicle : Chronicle Runtime PoolName Outcome,
      chronicle.Of (Executor.Triggers config) (start config world).machine.world crowd ∧
      (∀ i p, chronicle.works[i]? = some p →
        Executor.Narrative false (chronicle.trail (some i))) ∧
      callsOf (chronicle.trail none) = [] ∧
      world.backend.Books (callsOf (chronicle.entries.map Prod.snd)) crowd.machine.world.backend := by
  refine ⟨fun action actor value b => (action.attempted_attempt actor value b).cases_effect,
    fun _ _ _ _ _ _ _ hcourse => Executor.matched_runValues hcourse, ?_⟩
  obtain ⟨chronicle, hchronicle, hhost⟩ := Chronicle.exists_chronicle rfl h
  exact ⟨chronicle, hchronicle, fun _ _ hp => narrative_trail hchronicle.accounts hp,
    callsOf_host hhost, books_of_accounts hchronicle.accounts hhost⟩

/-- An engine without pauses whose services refuse a command. -/
def guarded : Engine :=
  let config := { Config.standard with pacing := .zero }
  start config ⟨{ Backend.empty with refusedCommands := ["op"] }, Registry.builtin config, []⟩

theorem calls_match_outcomes_guarded :
    let action : Action := ⟨"console", "[ \"say Hi\", \"op Ada\", \"say Bye\" ]"⟩
    let after := (guarded.execute ⟨"1", "Ada", none⟩ action .empty).2
    Crowd.Reaches (Executor.Triggers guarded.config) Runtime.Unbooked ⟨guarded.machine, []⟩
        ⟨after.machine, []⟩ ∧
      after.backend.consoleCommands = ["say Hi", "say Bye"] ∧
      ∃ chronicle : Chronicle Runtime PoolName Outcome,
        chronicle.Of (Executor.Triggers guarded.config) guarded.machine.world ⟨after.machine, []⟩ ∧
        guarded.backend.Books (callsOf (chronicle.entries.map Prod.snd)) after.backend := by
  intro action after
  have hcrowded : Crowded guarded.config ⟨guarded.machine, []⟩ := ⟨_, .refl⟩
  have hreaches := hcrowded.reaches_execute Runtime.Unbooked ⟨"1", "Ada", none⟩ action .empty
  obtain ⟨chronicle, hchronicle, -, -, hbooks⟩ := (calls_match_outcomes hreaches).2.2
  exact ⟨hreaches, by decide +kernel, chronicle, hchronicle, hbooks⟩

end Engine

end MenuActions
