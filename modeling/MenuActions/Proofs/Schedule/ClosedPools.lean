import MenuActions.Proofs.Schedule.Interleaving

/-!
# Closed pools

A pool that is closed stays closed, whatever happens, and takes no more tasks: those that it has later
it has already, and of those that wait for a permit none is new.  So a closed pool that is without tasks
stays without them.
-/

namespace MenuActions.Schedule.Machine

variable {W ι R : Type} [DecidableEq ι] {m m' : Machine W ι R} {pool : ι} {event : Event W ι R}
  {events : List (Event W ι R)}

omit [DecidableEq ι] in
/-- A closed pool refuses a task, and nothing comes of the task. -/
theorem spawn_of_closed (hclosed : (m.pools pool).closed = true) (body : Process W ι R) :
    m.spawn pool body = (none, m) :=
  if_pos hclosed

omit [DecidableEq ι] in
theorem pools_raiseInterrupt (m : Machine W ι R) : m.raiseInterrupt.pools = m.pools := by
  unfold raiseInterrupt
  split <;> rfl

omit [DecidableEq ι] in
theorem tasks_raiseInterrupt (m : Machine W ι R) : m.raiseInterrupt.tasks = m.tasks := by
  unfold raiseInterrupt
  split <;> rfl

omit [DecidableEq ι] in
theorem pools_spawn (m : Machine W ι R) (pool : ι) (body : Process W ι R) :
    (m.spawn pool body).2.pools = m.pools := by
  unfold spawn
  split <;> rfl

@[simp]
theorem permits_close (m : Machine W ι R) (pool other : ι) :
    ((m.close pool).pools other).permits = (m.pools other).permits :=
  updatePool_keeps (f := fun p => { p with closed := true }) Pool.permits (fun _ => rfl) m pool other

@[simp]
theorem permits_cancel (m : Machine W ι R) (pool other : ι) :
    ((m.cancel pool).pools other).permits = (m.pools other).permits :=
  updatePool_keeps (f := fun p => { p with leftover := 0 }) Pool.permits (fun _ => rfl) _ pool other

@[simp]
theorem closed_cancel (m : Machine W ι R) (pool other : ι) :
    ((m.cancel pool).pools other).closed = (m.pools other).closed :=
  updatePool_keeps (f := fun p => { p with leftover := 0 }) Pool.closed (fun _ => rfl) _ pool other

@[simp]
theorem mem_tasksOf {t : Task W ι R} : t ∈ m.tasksOf pool ↔ t ∈ m.tasks ∧ t.pool = pool := by
  simp [tasksOf]

theorem inFlight_eq_zero_iff : m.inFlight pool = 0 ↔ ∀ t ∈ m.tasks, t.pool ≠ pool := by
  rw [inFlight, List.length_eq_zero_iff, List.eq_nil_iff_forall_not_mem]
  simp

@[simp]
theorem closed_close (m : Machine W ι R) (pool : ι) : ((m.close pool).pools pool).closed = true := by
  simp [close, updatePool]

namespace Step

/-- No pool gets more permits, or fewer. -/
theorem permits (h : m.Step event m') (pool : ι) :
    (m'.pools pool).permits = (m.pools pool).permits := by
  cases h with
  | turn hturn =>
      cases hturn with
      | goesOn _ _ _ => exact (wentOn_resume _ { m with tasks := _ }).permits pool
      | passes _ => rfl
      | interrupts => rw [pools_raiseInterrupt]
      | closes other => exact permits_close m other pool
      | drops _ => exact permits_lose _ _ _ _ _
      | clears other => exact permits_cancel m other pool
  | starts _ _ => rw [pools_spawn]
  | changes _ => rfl

/-- No number is given twice. -/
theorem nextId_le (h : m.Step event m') : m.nextId ≤ m'.nextId := by
  cases h with
  | turn hturn =>
      cases hturn with
      | @goesOn task before after _ _ _ =>
          obtain ⟨started, -, -, hnext, -⟩ :=
            (wentOn_resume task { m with tasks := before ++ after }).tasks
          exact hnext ▸ Nat.le_add_right _ _
      | passes _ => exact Nat.le_refl _
      | interrupts =>
          unfold raiseInterrupt
          split <;> exact Nat.le_refl _
      | closes _ => exact Nat.le_refl _
      | drops _ => exact Nat.le_refl _
      | clears _ => exact Nat.le_refl _
  | starts target body =>
      obtain ⟨started, -, hspawn⟩ := exists_spawn_eq m target body
      rw [hspawn]
      exact Nat.le_add_right _ _
  | changes _ => exact Nat.le_refl _

/-- No pool is opened again. -/
theorem closed (h : m.Step event m') (hclosed : (m.pools pool).closed = true) :
    (m'.pools pool).closed = true := by
  cases h with
  | turn hturn =>
      cases hturn with
      | goesOn _ _ _ => exact ((wentOn_resume _ { m with tasks := _ }).closed pool).trans hclosed
      | passes _ => exact hclosed
      | interrupts =>
          rw [pools_raiseInterrupt]
          exact hclosed
      | closes other =>
          show (if pool = other then _ else m.pools pool : Pool).closed = true
          split
          · rfl
          · exact hclosed
      | drops _ => exact (closed_lose _ _ _ _ _).trans hclosed
      | clears other => exact (closed_cancel m other pool).trans hclosed
  | starts _ _ =>
      rw [pools_spawn]
      exact hclosed
  | changes _ => exact hclosed

/-- A task was there before, or it has gone on and waits again, or it has just been started on an open
pool. -/
theorem origin (h : m.Step event m') {t : Task W ι R} (ht : t ∈ m'.tasks) :
    t ∈ m.tasks ∨
      (t.wait.queued = false ∧ ∃ old ∈ m.tasks, old.id = t.id ∧ old.pool = t.pool) ∨
      (m.nextId ≤ t.id ∧ (m.pools t.pool).closed = false) := by
  cases h with
  | turn hturn =>
      cases hturn with
      | @goesOn task before after htasks _ _ =>
          obtain ⟨started, rested, hstarted, _, heq, _, hrested⟩ :=
            (wentOn_resume task { m with tasks := before ++ after }).tasks
          rw [heq] at ht
          rcases List.mem_append.mp ht with hold | hnew
          · exact Or.inl ((sublist_of_eq htasks).subset hold)
          · rcases List.mem_append.mp hnew with hnew | hself
            · exact Or.inr (Or.inr ⟨hstarted.nextId_le hnew, hstarted.accepted t hnew⟩)
            · obtain ⟨hid, htask, hwait⟩ := hrested t hself
              have hlisted : task ∈ m.tasks := by simp [htasks]
              exact Or.inr (Or.inl ⟨hwait, task, hlisted, hid.symm, htask.symm⟩)
      | passes _ => exact Or.inl ht
      | interrupts =>
          rw [tasks_raiseInterrupt] at ht
          exact Or.inl ht
      | closes _ => exact Or.inl ht
      | drops htasks => exact Or.inl ((sublist_of_eq htasks).subset ht)
      | clears _ => exact Or.inl (List.mem_filter.mp ht).1
  | starts other body =>
      obtain ⟨started, hstarted, hspawn⟩ := exists_spawn_eq m other body
      rw [hspawn] at ht
      rcases List.mem_append.mp ht with hold | hnew
      · exact Or.inl hold
      · exact Or.inr (Or.inr ⟨hstarted.nextId_le hnew, hstarted.accepted t hnew⟩)
  | changes _ => exact Or.inl ht

/-- A task of a closed pool was there before; it is the same one, or it has gone on and waits again. -/
theorem listed (h : m.Step event m') (hclosed : (m.pools pool).closed = true) {t : Task W ι R}
    (ht : t ∈ m'.tasks) (hpool : t.pool = pool) :
    t ∈ m.tasks ∨ t.wait.queued = false ∧ ∃ old ∈ m.tasks, old.id = t.id ∧ old.pool = pool := by
  rcases h.origin ht with hold | ⟨hwait, old, hold, hid, holdpool⟩ | ⟨-, hopen⟩
  · exact Or.inl hold
  · exact Or.inr ⟨hwait, old, hold, hid, holdpool.trans hpool⟩
  · rw [hpool] at hopen
    exact absurd (hopen.symm.trans hclosed) (by simp)

/-- A task that waits for its permit and was started before has waited for it since. -/
theorem mem_of_queued (h : m.Step event m') {t : Task W ι R} (ht : t ∈ m'.tasks)
    (hqueued : t.wait.queued = true) (hid : t.id < m.nextId) : t ∈ m.tasks := by
  rcases h.origin ht with hold | ⟨hwait, -⟩ | ⟨hnew, -⟩
  · exact hold
  · exact absurd (hqueued.symm.trans hwait) (by simp)
  · omega

end Step

namespace Trace

theorem permits (h : Trace Step m events m') (pool : ι) :
    (m'.pools pool).permits = (m.pools pool).permits := by
  induction h with
  | nil => rfl
  | snoc _ hlast ih => exact (hlast.permits pool).trans ih

theorem closed (h : Trace Step m events m') (hclosed : (m.pools pool).closed = true) :
    (m'.pools pool).closed = true := by
  induction h with
  | nil => exact hclosed
  | snoc _ hlast ih => exact hlast.closed ih

/-- The tasks that a closed pool has later, it has already. -/
theorem exists_listed (h : Trace Step m events m') (hclosed : (m.pools pool).closed = true)
    {t : Task W ι R} (ht : t ∈ m'.tasks) (hpool : t.pool = pool) :
    ∃ old ∈ m.tasks, old.id = t.id ∧ old.pool = pool := by
  induction h generalizing t with
  | nil => exact ⟨t, ht, rfl, hpool⟩
  | snoc hfirst hlast ih =>
      rcases hlast.listed (hfirst.closed hclosed) ht hpool with hold | ⟨_, middle, hmiddle, hid, hp⟩
      · exact ih hold hpool
      · obtain ⟨old, hold, hsame, holdpool⟩ := ih hmiddle hp
        exact ⟨old, hold, hsame.trans hid, holdpool⟩

/-- A task that waits for a permit of a closed pool has waited for it since before. -/
theorem mem_of_queued (h : Trace Step m events m') (hclosed : (m.pools pool).closed = true)
    {t : Task W ι R} (ht : t ∈ m'.tasks) (hpool : t.pool = pool) (hqueued : t.wait.queued = true) :
    t ∈ m.tasks := by
  induction h generalizing t with
  | nil => exact ht
  | snoc hfirst hlast ih =>
      rcases hlast.listed (hfirst.closed hclosed) ht hpool with hold | ⟨hwait, _⟩
      · exact ih hold hpool hqueued
      · exact absurd (hqueued.symm.trans hwait) (by simp)

/-- A closed pool without tasks stays without them. -/
theorem inFlight_eq_zero (h : Trace Step m events m') (hclosed : (m.pools pool).closed = true)
    (hidle : m.inFlight pool = 0) : m'.inFlight pool = 0 := by
  rw [inFlight_eq_zero_iff] at hidle ⊢
  intro t ht hpool
  obtain ⟨old, hold, _, holdpool⟩ := h.exists_listed hclosed ht hpool
  exact hidle old hold holdpool

end Trace

end MenuActions.Schedule.Machine
