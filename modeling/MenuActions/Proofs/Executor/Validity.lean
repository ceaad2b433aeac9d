import MenuActions.Proofs.Executor.ValueRuns
import MenuActions.Proofs.Grammar.WeightedEntry

/-!
# Validation and execution

Whether some data is valid is decided by one reader, and what it does by another.  `validity_agrees` says
that the two keep in step for every handler that an engine comes with: data that is not valid never
succeeds, a value in the wrong form never reaches a service, and of valid data nothing is turned down.

For a value action this follows from the runs of its values; the three combinators refuse the data with
the same reader, or have nothing to choose from.
-/

namespace MenuActions

open Schedule

namespace ValueRun

variable {action : ValueAction} {actor : Actor} {run : ValueRun}

/-- A value in the wrong form fails and does nothing. -/
theorem Genuine.of_invalid (h : run.Genuine action actor) (hvalue : action.isValid run.value = false) :
    run.trail = [] ∧ run.outcome.result.succeeded = false := by
  cases h with
  | tried value state hvalid =>
      rw [hvalid] at hvalue
      exact absurd hvalue (by decide)
  | turnedDown value _ => exact ⟨rfl, rfl⟩

/-- A value in the right form is not turned down. -/
theorem Genuine.of_valid (h : run.Genuine action actor) (hvalue : action.isValid run.value = true) :
    ∀ error, run.outcome = .error error → error.isValidation = false := by
  cases h with
  | tried value state _ =>
      have hattempted := action.attempted_attempt actor value state.backend
      generalize action.attempt actor value state.backend = effect at hattempted
      intro error herror
      cases hattempted with
      | accepted => exact absurd herror (by simp)
      | answered => exact absurd herror (by simp)
      | refused message =>
          obtain rfl := Except.error.inj herror
          rfl
      | unread reason hinvalid =>
          rw [hvalue] at hinvalid
          exact absurd hinvalid (by decide)
  | turnedDown value hinvalid =>
      rw [hvalue] at hinvalid
      exact absurd hinvalid (by decide)

end ValueRun

namespace Executor

/-- Whether a raw action is valid is up to the handler of its type. -/
theorem isValid_of_lookup {config : Config} {registry : Registry} {raw : String} {handler : Handler}
    {action : Action} (hread : Action.read config.defaultType raw = action)
    (hlookup : registry.lookup action.type = some handler) :
    isValid config registry raw = handler.isValid action.data := by
  unfold isValid validate
  simp only [hread, hlookup]
  cases handler.isValid action.data with
  | true => rfl
  | false => rfl

theorem validate_of_isValid {config : Config} {registry : Registry} {raw : String}
    (h : isValid config registry raw = true) : validate config registry raw = .ok () := by
  unfold isValid at h
  cases hvalidate : validate config registry raw with
  | ok _ => rfl
  | error error =>
      rw [hvalidate] at h
      exact absurd h (by simp [Except.isOk, Except.toBool])

variable {learns : Bool → Prop} {action : ValueAction} {actor : Actor} {values : List String}
  {runs : List ValueRun}

/-- The status of folded values counts those that succeeded among all. -/
theorem Folds.status {type : String} {total : Nat} {before : List ActionResult} {outcome : Outcome}
    (h : Folds learns type total before values runs outcome) :
    outcome.result.status =
      Status.ofCounts ((before ++ ValueRun.results runs).countP ActionResult.succeeded) total := by
  cases h with
  | all _ => rfl
  | cut _ _ => rfl

/-- When one of the values is in the wrong form, fewer of them succeed than there are. -/
theorem Through.countP_lt {ends : Outcome → Prop} {trail : List (Deed Runtime PoolName Outcome)}
    {q : ActionProcess} (h : Through action actor ends values runs trail q)
    (hvalues : ∃ value ∈ values, action.isValid value = false) :
    (ValueRun.results runs).countP ActionResult.succeeded < values.length := by
  have hlength : (ValueRun.results runs).length = runs.length := List.length_map _
  have hcount := List.countP_le_length (p := ActionResult.succeeded) (l := ValueRun.results runs)
  have hruns : runs.length ≤ values.length := by
    have hle := h.inOrder.length_le
    rwa [List.length_map] at hle
  rcases Nat.lt_or_eq_of_le hruns with hless | hall
  · omega
  · -- All values were run, so the one in the wrong form is among those that failed.
    obtain ⟨value, hvalue, hinvalid⟩ := hvalues
    have heq : runs.map ValueRun.value = values :=
      h.inOrder.eq_of_length (by rw [List.length_map, hall])
    rw [← heq] at hvalue
    obtain ⟨run, hrun, rfl⟩ := List.mem_map.mp hvalue
    have hfailed := ((h.genuine run hrun).of_invalid hinvalid).2
    have hmem : run.outcome.result ∈ ValueRun.results runs := List.mem_map_of_mem hrun
    have hne : (ValueRun.results runs).countP ActionResult.succeeded ≠
        (ValueRun.results runs).length := by
      intro hcountall
      rw [List.countP_eq_length] at hcountall
      have htrue := hcountall _ hmem
      rw [hfailed] at htrue
      exact absurd htrue (by decide)
    omega

/-- Data of a value action that is not valid does not succeed. -/
theorem runValues_refuses {pacing : Nat} {data : String}
    {trail : List (Deed Runtime PoolName Outcome)} {outcome : Outcome}
    (hinvalid : (Handler.value action pacing).isValid data = false)
    (h : (runValues action pacing actor data).Course learns trail (.done outcome)) :
    outcome.result.status ≠ .success := by
  rcases course_runValues h with ⟨error, -, -, hq⟩ | ⟨values, runs, hread, hthrough⟩
  · obtain rfl := Process.done.inj hq
    rw [Outcome.result, ActionResult.status_ofError]
    exact fun h => Status.noConfusion h
  · have hvalues : values = [] ∨ ∃ value ∈ values, action.isValid value = false := by
      unfold Handler.isValid at hinvalid
      simp only [hread] at hinvalid
      rcases Bool.and_eq_false_iff.mp hinvalid with hempty | hall
      · exact Or.inl (by simpa using hempty)
      · exact Or.inr (by simpa using hall)
    cases hthrough.ended outcome rfl with
    | empty _ _ =>
        rw [Outcome.result, ActionResult.status_ofError]
        exact fun h => Status.noConfusion h
    | single run hvalue hruns =>
        subst hvalue hruns
        have hwrong : action.isValid run.value = false := by
          rcases hvalues with hnil | ⟨value, hmem, hwrong⟩
          · exact absurd hnil (by simp)
          · rwa [List.mem_singleton.mp hmem] at hwrong
        have hfailed := ((hthrough.genuine run List.mem_cons_self).of_invalid hwrong).2
        intro hsuccess
        rw [ActionResult.succeeded_eq, hsuccess] at hfailed
        exact absurd hfailed (by decide)
    | several hlength hfolds =>
        have hwrong := hvalues.resolve_left (by rintro rfl; exact absurd hlength (by decide))
        rw [hfolds.status, List.nil_append]
        exact Status.ofCounts_ne_success (hthrough.countP_lt hwrong)

/-! ## Combinators -/

/-- An entry that cannot be drawn is not read as one. -/
theorem read?_of_not_isDrawable {isValid : String → Bool} {value : String}
    (hrandom : Grammar.Block.isRandom value.toList = false) (h : Handler.isDrawable value = false) :
    Grammar.Weighted.read? isValid value.toList = none := by
  have hblank : ∀ c ∈ value.toList, Text.isBlank c = true := by
    rw [Handler.isDrawable, hrandom, Bool.not_false, Bool.true_and, Bool.not_eq_false',
      Text.isBlankText, List.all_eq_true] at h
    exact h
  refine Grammar.Weighted.read?_of_blank ?_
  rw [Text.trim, Text.trimStart_eq_nil_of_blank hblank]
  rfl

/-- When nothing can be drawn, there are no entries. -/
theorem entries_of_invalid (config : Config) (registry : Registry) {data : String}
    (h : Handler.random.isValid data = false) :
    (∃ error, entries config registry data = .error error) ∨ entries config registry data = .ok [] := by
  unfold Handler.isValid at h
  unfold entries
  split
  · exact Or.inl ⟨_, rfl⟩
  · rename_i values hread
    simp only [hread, List.any_eq_false, Bool.not_eq_true] at h
    refine Or.inr (congrArg Except.ok (List.filterMap_eq_nil_iff.mpr fun value hvalue => ?_))
    obtain ⟨hmem, hrandom⟩ := List.mem_filter.mp hvalue
    exact read?_of_not_isDrawable (by simpa using hrandom) (h value hmem)

/-- Nothing is drawn from no entries. -/
theorem select_nil (position : Float) : Grammar.Weighted.select [] position = none := by
  unfold Grammar.Weighted.select Grammar.Weighted.choose
  dsimp only
  split <;> rfl

section Handlers

variable {trail : List (Deed Runtime PoolName Outcome)} {outcome : Outcome}

/-- A failure is no success. -/
theorem fail_refuses {error : ActionError} (h : (fail error).Course learns trail (.done outcome)) :
    outcome.result.status ≠ .success := by
  obtain rfl := Process.done.inj h.of_done.2
  rw [Outcome.result, ActionResult.status_ofError]
  exact fun h => Status.noConfusion h

theorem runRandom_refuses {config : Config} {nest : String → ActionProcess} {inPlace : Bool}
    {world : World} {data : String} (hinvalid : Handler.random.isValid data = false)
    (h : (runRandom config nest inPlace world data).Course learns trail (.done outcome)) :
    outcome.result.status ≠ .success := by
  unfold runRandom at h
  rcases entries_of_invalid config world.registry hinvalid with ⟨error, hentries⟩ | hentries
  · simp only [hentries] at h
    exact fail_refuses h
  · simp only [hentries, select_nil] at h
    cases h with
    | act now state h =>
        obtain rfl := Process.done.inj h.of_done.2
        exact fun h => Status.noConfusion h

/-- Whatever handler an engine comes with: when it finds some data not valid, the data does not
succeed. -/
theorem runHandler_refuses {config : Config} {handler : Handler}
    (hbuiltin : handler ∈ Handler.builtin config) {nest : Bool → String → ActionProcess}
    {onRandom : Bool} {world : World} {ctx : Context} {data : String}
    (hinvalid : handler.isValid data = false)
    (h : (runHandler config nest onRandom world actor ctx data handler).Course learns trail
      (.done outcome)) : outcome.result.status ≠ .success := by
  cases handler with
  | value action pacing => exact runValues_refuses hinvalid h
  | conditional =>
      rw [runHandler, runConditional] at h
      split at h
      · exact fail_refuses h
      · rename_i spec hread
        have hvalid : Handler.conditional.isValid data = true := by
          rw [Handler.isValid, hread]
          rfl
        rw [hvalid] at hinvalid
        exact absurd hinvalid (by decide)
  | random => exact runRandom_refuses hinvalid h
  | delay maxMs =>
      rw [runHandler, runDelay] at h
      split at h
      · exact fail_refuses h
      · rename_i delay hread
        have hvalid : (Handler.delay maxMs).isValid data = true := by
          rw [Handler.isValid, hread]
          rfl
        rw [hvalid] at hinvalid
        exact absurd hinvalid (by decide)
  | added handler => simp [Handler.builtin] at hbuiltin

end Handlers

/-- Valid data of a value action: none of its values is turned down, and neither is the whole. -/
theorem runValues_accepts {pacing : Nat} {data : String}
    {trail : List (Deed Runtime PoolName Outcome)} {q : ActionProcess} {values : List String}
    (hread : Handler.readTexts action.typeName data = .ok values)
    (hvalid : (Handler.value action pacing).isValid data = true)
    (h : Through action actor (Closes learns action values runs) values runs trail q) :
    (∀ run ∈ runs, ∀ error, run.outcome = .error error → error.isValidation = false) ∧
      ∀ error, q = .done (.error error) → error.isValidation = false := by
  unfold Handler.isValid at hvalid
  simp only [hread, Bool.and_eq_true, Bool.not_eq_true', List.all_eq_true] at hvalid
  obtain ⟨hne, hall⟩ := hvalid
  have hruns : ∀ run ∈ runs, ∀ error, run.outcome = .error error → error.isValidation = false := by
    intro run hrun
    have hmem : run.value ∈ values := h.inOrder.subset (List.mem_map_of_mem hrun)
    exact (h.genuine run hrun).of_valid (hall run.value hmem)
  refine ⟨hruns, fun error hq => ?_⟩
  have hended := h.ended _ hq
  generalize houtcome : (Except.error error : Outcome) = outcome at hended
  cases hended with
  | empty hempty _ => exact absurd hne (by simp [hempty])
  | single run _ hsingle => exact hruns run (hsingle ▸ List.mem_cons_self) error houtcome.symm
  | several _ hfolds =>
      cases hfolds with
      | all _ => exact absurd houtcome (by simp)
      | cut _ _ => exact absurd houtcome (by simp)

/-- Validation and execution agree. For every handler that an engine comes with, whatever the data, the
actor and the world, and whatever else goes on: when the handler finds the data not valid, running it does
not end with success. Of a value action, only values in the right form change anything; and when its data
is valid, no value is turned down, nor is the whole. -/
theorem validity_agrees (config : Config) {handler : Handler} (hbuiltin : handler ∈ Handler.builtin config)
    (nest : Bool → String → ActionProcess) (onRandom : Bool) (world : World) (actor : Actor)
    (ctx : Context) (data : String) :
    let process := runHandler config nest onRandom world actor ctx data handler
    (handler.isValid data = false →
      (∀ trail outcome, process.Course (fun _ => True) trail (.done outcome) →
        outcome.result.status ≠ .success) ∧
      ∀ (machine : Machine Runtime PoolName Outcome) (outcome : Outcome),
        (machine.run process).1 = some outcome → outcome.result.status ≠ .success) ∧
    ∀ action pacing, handler = .value action pacing →
      ∀ trail q, process.Course (fun _ => True) trail q →
        ∃ runs : List ValueRun, trail = runs.flatMap ValueRun.trail ∧
          (∀ run ∈ runs, run.Genuine action actor ∧
            (action.isValid run.value = false → run.trail = [])) ∧
          (handler.isValid data = true →
            (∀ run ∈ runs, ∀ error, run.outcome = .error error → error.isValidation = false) ∧
            ∀ error, q = .done (.error error) → error.isValidation = false) := by
  intro process
  refine ⟨fun hinvalid => ⟨fun trail outcome h => runHandler_refuses hbuiltin hinvalid h,
    fun machine outcome hrun => ?_⟩, ?_⟩
  · obtain ⟨-, trail, hcourse⟩ := machine.course_run process
    rw [hrun] at hcourse
    exact runHandler_refuses hbuiltin hinvalid hcourse
  · rintro action pacing rfl trail q h
    rcases course_runValues h with ⟨error, hread, rfl, rfl⟩ | ⟨values, runs, hread, hthrough⟩
    · refine ⟨[], rfl, fun _ hrun => absurd hrun List.not_mem_nil, fun hvalid => ?_⟩
      unfold Handler.isValid at hvalid
      simp only [hread] at hvalid
      exact absurd hvalid (by decide)
    · refine ⟨runs, hthrough.deeds, fun run hrun => ?_, fun hvalid => ?_⟩
      · have hgenuine := hthrough.genuine run hrun
        exact ⟨hgenuine, fun hvalue => (hgenuine.of_invalid hvalue).1⟩
      · exact runValues_accepts hread hvalid hthrough

theorem validity_agrees_message :
    let handler := Handler.value .message (Config.standard.pacing .message)
    let data := "[ \"Hi\", \" \" ]"
    handler ∈ Handler.builtin Config.standard ∧ handler.isValid data = false ∧
      ∀ (machine : Machine Runtime PoolName Outcome) (outcome : Outcome),
        (machine.run (runHandler Config.standard (fun _ _ => fail (.poolShutdown "")) false
          ⟨.empty, .empty, []⟩ ⟨"1", "Ada", none⟩ .empty data handler)).1 = some outcome →
            outcome.result.status ≠ .success := by
  intro handler data
  have hbuiltin : handler ∈ Handler.builtin Config.standard := by decide
  have hinvalid : handler.isValid data = false := by decide +kernel
  exact ⟨hbuiltin, hinvalid,
    ((validity_agrees Config.standard hbuiltin _ _ _ _ _ data).1 hinvalid).2⟩

end Executor

end MenuActions
