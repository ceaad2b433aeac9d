import MenuActions.Executor
import MenuActions.Proofs.Backend.Ledger
import MenuActions.Proofs.Schedule.Course

/-!
# Runs of a value list

What a value action does with the values of its data: it goes through them in order and tries those in
the right form, one change of the world for each; the others are turned down without a change.  When it
ends, its outcome is made from the outcomes of the values that were run.

`course_runValues` says so of every course of a value list, so it holds whatever goes on around it.
-/

namespace MenuActions

open Schedule

/-- What came of one value. -/
structure ValueRun where
  value : String
  outcome : Outcome
  trail : List (Deed Runtime PoolName Outcome)

namespace ValueRun

variable {action : ValueAction} {actor : Actor}

/-- A value in the right form is tried on the world as it is then, and a value in another form is turned
down. -/
inductive Genuine (action : ValueAction) (actor : Actor) : ValueRun → Prop
  | tried (value : String) (state : Runtime) : action.isValid value = true →
      Genuine action actor
        ⟨value, (action.attempt actor value state.backend).1,
          [.changes state { state with backend := (action.attempt actor value state.backend).2 }]⟩
  | turnedDown (value : String) : action.isValid value = false →
      Genuine action actor
        ⟨value, .error (.validation action.typeName ("invalid value '" ++ value ++ "'")), []⟩

/-- Whether a value succeeded. -/
def succeeded (run : ValueRun) : Bool :=
  run.outcome.result.succeeded

end ValueRun

/-- The results of some values. -/
def ValueRun.results (runs : List ValueRun) : List ActionResult :=
  runs.map fun run => run.outcome.result

namespace Executor

variable {learns : Bool → Prop} {action : ValueAction} {actor : Actor}
  {trail : List (Deed Runtime PoolName Outcome)} {q : ActionProcess}

/-- A value that is run before something else is still to be tried, or it has been run and what comes
after it goes on with its outcome. -/
theorem course_runValue_bind {value : String} {k : Outcome → ActionProcess}
    (h : ((runValue action actor value).bind k).Course learns trail q) :
    (trail = [] ∧ ∃ effect next, q = .act effect next) ∨
      ∃ (run : ValueRun) (after : List (Deed Runtime PoolName Outcome)),
        run.Genuine action actor ∧ run.value = value ∧ trail = run.trail ++ after ∧
          (k run.outcome).Course learns after q := by
  unfold runValue at h
  split at h
  · rename_i hvalid
    cases h with
    | rest => exact Or.inl ⟨rfl, _, _, rfl⟩
    | act now state hrest => exact Or.inr ⟨_, _, .tried value state hvalid, rfl, rfl, hrest⟩
  · rename_i hvalid
    exact Or.inr ⟨_, trail, .turnedDown value (by simpa using hvalid), rfl, rfl, h⟩

theorem runValue_bind_done (value : String) :
    (runValue action actor value).bind .done = runValue action actor value := by
  unfold runValue
  split <;> rfl

/-- How a list of values ends, of which some were run: with the results of all of them, or cut short by
an interrupt. -/
inductive Folds (learns : Bool → Prop) (type : String) (total : Nat) (before : List ActionResult)
    (values : List String) (runs : List ValueRun) : Outcome → Prop
  | all : runs.map ValueRun.value = values →
      Folds learns type total before values runs
        (.ok (ActionResult.aggregate type (before ++ ValueRun.results runs) total))
  | cut : learns true → runs.length < values.length →
      Folds learns type total before values runs
        (.ok (Sequence.cutShort type (before ++ ValueRun.results runs) total))

/-- Where some values have come: a part of them was run, in order, only these have changed anything, and
an outcome is of some kind. -/
structure Through (action : ValueAction) (actor : Actor) (ends : Outcome → Prop)
    (values : List String) (runs : List ValueRun) (trail : List (Deed Runtime PoolName Outcome))
    (q : ActionProcess) : Prop where
  genuine : ∀ run ∈ runs, run.Genuine action actor
  inOrder : runs.map ValueRun.value <+: values
  deeds : trail = runs.flatMap ValueRun.trail
  unbroken : q ≠ .crash
  ended : ∀ outcome, q = .done outcome → ends outcome

section Folding

variable {type : String} {pacing total : Nat} {before : List ActionResult} {values : List String}

/-- No value was run, and nothing was changed. -/
theorem Through.none {ends : Outcome → Prop} (hcrash : q ≠ .crash)
    (hends : ∀ outcome, q = .done outcome → ends outcome) :
    Through action actor ends values [] [] q :=
  ⟨fun _ h => absurd h List.not_mem_nil, List.nil_prefix, rfl, hcrash, hends⟩

/-- The values behind one that was run have come as far as all of them with this one. -/
theorem Through.cons {run : ValueRun} {runs : List ValueRun} (hrun : run.Genuine action actor)
    (h : Through action actor (Folds learns type total (before ++ [run.outcome.result]) values runs)
      values runs trail q) :
    Through action actor (Folds learns type total before (run.value :: values) (run :: runs))
      (run.value :: values) (run :: runs) (run.trail ++ trail) q := by
  have hresults : before ++ [run.outcome.result] ++ ValueRun.results runs =
      before ++ ValueRun.results (run :: runs) := by
    simp [ValueRun.results]
  refine ⟨fun other hother => ?_, ?_, ?_, h.unbroken, fun outcome hq => ?_⟩
  · rcases List.mem_cons.mp hother with rfl | hother
    · exact hrun
    · exact h.genuine other hother
  · rw [List.map_cons]
    exact List.cons_prefix_cons.mpr ⟨rfl, h.inOrder⟩
  · rw [List.flatMap_cons, h.deeds]
  · cases h.ended outcome hq with
    | all hvalues =>
        rw [hresults]
        exact .all (by rw [List.map_cons, hvalues])
    | cut hlearns hlength =>
        rw [hresults]
        exact .cut hlearns (Nat.succ_lt_succ hlength)

/-- The results that are there already are folded when there is nothing left to run. -/
theorem folds_nil : Folds learns type total before [] [] (.ok (.aggregate type before total)) := by
  have hall : Folds learns type total before [] []
      (.ok (.aggregate type (before ++ ValueRun.results []) total)) := .all rfl
  rwa [ValueRun.results, List.map_nil, List.append_nil] at hall

/-- They are folded too when an interrupt comes before the next value. -/
theorem folds_cut (hlearns : learns true) (value : String) :
    Folds learns type total before (value :: values) []
      (.ok (Sequence.cutShort type before total)) := by
  have hcut : Folds learns type total before (value :: values) []
      (.ok (Sequence.cutShort type (before ++ ValueRun.results []) total)) :=
    .cut hlearns (Nat.succ_pos _)
  rwa [ValueRun.results, List.map_nil, List.append_nil] at hcut

/-- Wherever the values that are left have come, they have come there in order. -/
theorem course_runFrom
    (h : (Sequence.runFrom type pacing total (runValue action actor) before values).Course learns
      trail q) :
    ∃ runs, Through action actor (Folds learns type total before values runs) values runs trail q := by
  induction values generalizing before trail q with
  | nil =>
      obtain ⟨rfl, rfl⟩ := h.of_done
      exact ⟨[], .none (by simp) fun outcome hq => Process.done.inj hq ▸ folds_nil⟩
  | cons value values ih =>
      -- The value is run at once, or when the pause in front of it is over.
      have hbody : ∀ {trail q}, ((runValue action actor value).bind fun outcome =>
          Sequence.runFrom type pacing total (runValue action actor) (before ++ [outcome.result])
            values).Course learns trail q →
          ∃ runs, Through action actor (Folds learns type total before (value :: values) runs)
            (value :: values) runs trail q := by
        intro trail q h
        rcases course_runValue_bind h with ⟨rfl, effect, next, rfl⟩ | ⟨run, after, hrun, rfl, rfl, hrest⟩
        · exact ⟨[], .none (by simp) (by simp)⟩
        · obtain ⟨runs, hruns⟩ := ih hrest
          exact ⟨run :: runs, hruns.cons hrun⟩
      rw [Sequence.runFrom] at h
      split at h
      · exact hbody h
      · cases h with
        | rest => exact ⟨[], .none (by simp) (by simp)⟩
        | pause interrupted hlearns h =>
            cases interrupted with
            | false => exact hbody h
            | true =>
                obtain ⟨rfl, rfl⟩ := h.of_done
                exact ⟨[], .none (by simp) fun outcome hq =>
                  Process.done.inj hq ▸ folds_cut hlearns value⟩

end Folding

/-- How the values of a value action end: without values there is an error, a single one gives its own
outcome, and several are folded. -/
inductive Closes (learns : Bool → Prop) (action : ValueAction) (values : List String)
    (runs : List ValueRun) : Outcome → Prop
  | empty : values = [] → runs = [] →
      Closes learns action values runs (.error (.validation action.typeName "no values given"))
  | single (run : ValueRun) : values = [run.value] → runs = [run] →
      Closes learns action values runs run.outcome
  | several {outcome : Outcome} : 2 ≤ values.length →
      Folds learns action.typeName values.length [] values runs outcome →
      Closes learns action values runs outcome

/-- Several outcomes are combined as an aggregate. -/
theorem combine_of_two_le (type : String) {outcomes : List Outcome} (h : 2 ≤ outcomes.length) :
    combine type outcomes =
      ActionResult.aggregate type (outcomes.map Outcome.result) outcomes.length := by
  unfold combine
  split
  · exact absurd h (by simp)
  · rfl

/-- Without an interrupt all values are run, and their outcomes are combined. -/
theorem Closes.of_clear {values : List String} {runs : List ValueRun} {outcome : Outcome}
    (h : Closes learns action values runs outcome) (hclear : ¬learns true) (hvalues : values ≠ []) :
    runs.map ValueRun.value = values ∧
      outcome.result = combine action.typeName (runs.map ValueRun.outcome) := by
  cases h with
  | empty hempty _ => exact absurd hempty hvalues
  | single run hvalue hruns =>
      subst hvalue hruns
      exact ⟨rfl, rfl⟩
  | several hlength hfolds =>
      cases hfolds with
      | cut hlearns _ => exact absurd hlearns hclear
      | all hall =>
          subst hall
          rw [List.length_map] at hlength ⊢
          refine ⟨rfl, ?_⟩
          rw [combine_of_two_le _ (by rwa [List.length_map]), List.length_map, List.map_map]
          rfl

/-- Wherever the values of a value action have come, they have come there in order; data that cannot be
read gives an error and nothing else. -/
theorem course_runValues {pacing : Nat} {data : String}
    (h : (runValues action pacing actor data).Course learns trail q) :
    (∃ error, Handler.readTexts action.typeName data = .error error ∧ trail = [] ∧
        q = fail (.ofParse action.typeName error)) ∨
      ∃ values runs, Handler.readTexts action.typeName data = .ok values ∧
        Through action actor (Closes learns action values runs) values runs trail q := by
  unfold runValues at h
  split at h
  · rename_i error hread
    obtain ⟨rfl, rfl⟩ := h.of_done
    exact Or.inl ⟨error, hread, rfl, rfl⟩
  · rename_i values hread
    refine Or.inr ⟨values, ?_⟩
    unfold Sequence.run at h
    split at h
    · obtain ⟨rfl, rfl⟩ := h.of_done
      exact ⟨[], hread, .none (by simp) fun outcome hq => Process.done.inj hq ▸ .empty rfl rfl⟩
    · rename_i value
      rw [← runValue_bind_done] at h
      rcases course_runValue_bind h with ⟨rfl, effect, next, rfl⟩ | ⟨run, after, hrun, rfl, rfl, hrest⟩
      · exact ⟨[], hread, .none (by simp) (by simp)⟩
      · obtain ⟨rfl, rfl⟩ := hrest.of_done
        refine ⟨[run], hread, fun other hother => ?_, List.prefix_rfl, by simp, by simp,
          fun outcome hq => Process.done.inj hq ▸ .single run rfl rfl⟩
        exact List.mem_singleton.mp hother ▸ hrun
    · rename_i hempty hsingle
      obtain ⟨runs, hruns⟩ := course_runFrom h
      have hlength : 2 ≤ values.length := by
        match values with
        | [] => exact (hempty rfl).elim
        | [value] => exact (hsingle value rfl).elim
        | _ :: _ :: values => exact Nat.le_add_left 2 values.length
      exact ⟨runs, hread, hruns.genuine, hruns.inOrder, hruns.deeds, hruns.unbroken,
        fun outcome hq => .several hlength (hruns.ended outcome hq)⟩

end Executor

end MenuActions
