import MenuActions.Proofs.Schedule.ClosedPools

/-!
# Retired pools

A pool has retired when it was closed and was later found without tasks, as a shutdown leaves it.  It
never has a task again, whatever happens; and when all pools have retired, no task goes on any more and
time changes nothing.
-/

namespace MenuActions.Schedule.Machine

variable {W ι R : Type} [DecidableEq ι] {m m' m'' : Machine W ι R} {pool : ι} {pools : List ι}
  {events : List (Event W ι R)}

/-- Between two machines a pool was closed, and later no task of it was in flight.  Anything may have
happened before, in between and since. -/
def Retires (pool : ι) (m m' : Machine W ι R) : Prop :=
  ∃ before opened during idle since, Trace Step m before opened ∧
    Trace Step (opened.close pool) during idle ∧ idle.inFlight pool = 0 ∧ Trace Step idle since m'

theorem Retires.trace (h : m.Retires pool m') (htrace : Trace Step m' events m'') :
    m.Retires pool m'' := by
  obtain ⟨before, opened, during, idle, since, hbefore, hduring, hidle, hsince⟩ := h
  exact ⟨before, opened, during, idle, _, hbefore, hduring, hidle, hsince.append htrace⟩

/-- A pool that has retired stays closed and without tasks. -/
theorem Retires.idle (h : m.Retires pool m') :
    m'.inFlight pool = 0 ∧ (m'.pools pool).closed = true := by
  obtain ⟨_, opened, _, idle, _, _, hduring, hidle, hsince⟩ := h
  have hclosed : (idle.pools pool).closed = true := hduring.closed (closed_close opened pool)
  exact ⟨hsince.inFlight_eq_zero hclosed hidle, hsince.closed hclosed⟩

/-- A machine is without tasks when each of its pools is. -/
theorem tasks_eq_nil (h : ∀ pool, m.inFlight pool = 0) : m.tasks = [] :=
  List.eq_nil_iff_forall_not_mem.mpr fun task htask =>
    inFlight_eq_zero_iff.mp (h task.pool) task htask rfl

/-- When all pools have retired, no task goes on, and the world changes only from outside. -/
theorem Trace.quiet (h : Trace Step m events m') (hclosed : ∀ pool, (m.pools pool).closed = true)
    (hidle : ∀ pool, m.inFlight pool = 0) :
    (∀ task, .goesOn task ∉ events) ∧
      ((∀ world, .changes world ∉ events) → m'.world = m.world) := by
  induction h with
  | nil => exact ⟨fun _ => List.not_mem_nil, fun _ => rfl⟩
  | @snoc events event m₁ m₂ hfirst hlast ih =>
      have hempty : m₁.tasks = [] :=
        tasks_eq_nil fun pool => hfirst.inFlight_eq_zero (hclosed pool) (hidle pool)
      have hnone : ∀ task, event ≠ .goesOn task := by
        rintro task rfl
        cases hlast with
        | turn hturn =>
            cases hturn with
            | goesOn htasks _ _ =>
                rw [hempty] at htasks
                exact absurd htasks (by simp)
      refine ⟨fun task htask => ?_, fun hchanges => ?_⟩
      · rcases List.mem_append.mp htask with hold | hnew
        · exact ih.1 task hold
        · exact hnone task (List.mem_singleton.mp hnew).symm
      · refine Eq.trans ?_ (ih.2 fun world hworld => hchanges world (List.mem_append_left _ hworld))
        cases hlast with
        | turn hturn =>
            cases hturn with
            | goesOn _ _ _ => exact absurd rfl (hnone _)
            | passes _ => rfl
            | interrupts =>
                unfold raiseInterrupt
                split <;> rfl
            | closes _ => rfl
            | drops _ => rfl
            | clears _ => rfl
        | starts target body =>
            unfold spawn
            split <;> rfl
        | changes world =>
            exact absurd (List.mem_append_right _ (List.mem_singleton_self _)) (hchanges world)

/-- A machine without tasks stays as it is while time passes, but for the time. -/
theorem advanceTo_of_nil (htasks : m.tasks = []) (moment : Nat) :
    m.advanceTo moment = { m with now := max m.now moment } := by
  have hstuck : m.step? (some moment) = none := by
    rw [step?, htasks]
    rfl
  rw [advanceTo, drive_of_stuck hstuck]

/-! ## A shutdown retires its pools -/

theorem inFlight_cancel_self (m : Machine W ι R) (pool : ι) : (m.cancel pool).inFlight pool = 0 := by
  rw [inFlight_eq_zero_iff]
  intro t ht
  simpa using (List.mem_filter.mp ht).2

/-- Cancelling the tasks of pools, one pool after another, leaves none of them with a task, and gives
none to another pool. -/
theorem inFlight_foldl_cancel (pools : List ι) (m : Machine W ι R)
    (h : pool ∈ pools ∨ m.inFlight pool = 0) : (pools.foldl cancel m).inFlight pool = 0 := by
  induction pools generalizing m with
  | nil => exact h.resolve_left List.not_mem_nil
  | cons other pools ih =>
      refine ih (m.cancel other) ?_
      rcases h with hmem | hidle
      · rcases List.mem_cons.mp hmem with rfl | hlater
        · exact Or.inr (inFlight_cancel_self m pool)
        · exact Or.inl hlater
      · rw [inFlight_eq_zero_iff] at hidle ⊢
        exact Or.inr fun t ht => hidle t (List.mem_filter.mp ht).1

theorem turns_close (pools : List ι) (m : Machine W ι R) : m.Turns (pools.foldl close m) :=
  Turns.foldl (fun _ i => .single (.closes i)) pools m

/-- The pools that are shut down are closed at once, one after the other. -/
theorem exists_close_of_mem (hmem : pool ∈ pools) (m : Machine W ι R) :
    ∃ opened, m.Turns opened ∧ (opened.close pool).Turns (pools.foldl close m) := by
  obtain ⟨front, back, rfl⟩ := List.append_of_mem hmem
  rw [List.foldl_append, List.foldl_cons]
  exact ⟨_, turns_close front m, turns_close back _⟩

/-- A shutdown returns with no task of its pools in flight. -/
theorem inFlight_shutdown (hmem : pool ∈ pools) (timeout : Nat) (m : Machine W ι R) :
    (m.shutdown pools timeout).2.inFlight pool = 0 := by
  obtain ⟨opened, _, hrest⟩ := exists_close_of_mem hmem m
  have hwaited := hrest.trans (turns_awaitIdle pools timeout (pools.foldl close m))
  unfold shutdown
  dsimp only
  generalize (pools.foldl close m).awaitIdle pools timeout = waited at hwaited
  split
  · rename_i hidle
    simpa using List.all_eq_true.mp hidle pool hmem
  · refine inFlight_foldl_cancel _ _ ?_
    by_cases hlate : waited.inFlight pool = 0
    · -- A pool that was idle in time is closed, and so it still is idle.
      right
      obtain ⟨_, hclosing⟩ := hwaited
      have hclosed := hclosing.step.closed (closed_close opened pool)
      obtain ⟨_, hgrace⟩ :=
        (Turns.single .interrupts).trans (turns_awaitIdle pools grace waited.raiseInterrupt)
      exact hgrace.step.inFlight_eq_zero hclosed hlate
    · exact Or.inl (List.mem_filter.mpr ⟨hmem, by simpa using hlate⟩)

theorem retires_shutdown (hmem : pool ∈ pools) (timeout : Nat) (m : Machine W ι R) :
    m.Retires pool (m.shutdown pools timeout).2 := by
  obtain ⟨opened, ⟨before, hbefore⟩, hrest⟩ := exists_close_of_mem hmem m
  obtain ⟨during, hduring⟩ := hrest.trans (turns_shutdown pools timeout m)
  exact ⟨before, opened, during, _, [], hbefore.step, hduring.step,
    inFlight_shutdown hmem timeout m, .nil⟩

end MenuActions.Schedule.Machine
