import Mathlib.Data.List.Nodup
import Mathlib.Data.List.Range
import MenuActions.Proofs.Schedule.Interleaving

/-!
# Every task is accounted for once

The numbers that a machine has given to its tasks are those of the tasks that have not ended and of
those that have, each of them once; and the tasks that wait for a permit are listed in the order in
which they were started.  `Accounted` says so, and `Accounted.trace` that every interleaving keeps it.
-/

namespace MenuActions.Schedule.Machine

variable {W ι R : Type} {m m' : Machine W ι R} {active : List Nat}

/-- The numbers of the tasks that have not ended, and of those that have. -/
def numbers (m : Machine W ι R) : List Nat :=
  m.tasks.map Task.id ++ m.ended.map Prod.fst

/-- Every number that was given to a task is that of a task that is active, listed or ended, and of one
of them only; the tasks that wait for a permit are listed by their numbers. -/
structure Accounted (active : List Nat) (m : Machine W ι R) : Prop where
  once : (active ++ m.numbers).Perm (List.range m.nextId)
  inTurn : m.tasks.Pairwise fun a b =>
    a.wait.queued = true → b.wait.queued = true → a.id < b.id

/-- A task has no ending as long as it is not among those that have ended. -/
theorem isNone_ending?_iff {id : Nat} :
    (m.ending? id).isNone = true ↔ id ∉ m.ended.map Prod.fst := by
  rw [ending?, Option.isNone_map, Option.isNone_iff_eq_none, List.find?_eq_none, List.mem_map]
  constructor
  · rintro hnone ⟨entry, hentry, hid⟩
    exact hnone entry hentry (by simpa using hid)
  · intro hnot entry hentry hid
    exact hnot ⟨entry, hentry, by simpa using hid⟩

namespace Accounted

theorem start (world : W) (pools : ι → Pool) :
    (Machine.start world pools : Machine W ι R).Accounted [] :=
  ⟨List.Perm.refl _, List.Pairwise.nil⟩

theorem nodup (h : m.Accounted active) : (active ++ m.numbers).Nodup :=
  h.once.nodup_iff.mpr List.nodup_range

theorem lt_nextId (h : m.Accounted active) {id : Nat} (hid : id ∈ m.numbers) : id < m.nextId :=
  List.mem_range.mp (h.once.mem_iff.mp (List.mem_append_right _ hid))

theorem id_lt_nextId (h : m.Accounted active) {task : Task W ι R} (htask : task ∈ m.tasks) :
    task.id < m.nextId :=
  h.lt_nextId (List.mem_append_left _ (List.mem_map_of_mem htask))

/-- A task that has not ended is not among those that have. -/
theorem not_ended (h : m.Accounted active) {task : Task W ι R} (htask : task ∈ m.tasks) :
    task.id ∉ m.ended.map Prod.fst := by
  intro hended
  have hnumbers := (List.nodup_append.mp h.nodup).2.1
  exact (List.nodup_append.mp hnumbers).2.2 _ (List.mem_map_of_mem htask) _ hended rfl

/-- A task whose number was given, and that has not ended, is listed. -/
theorem exists_of_not_ended (h : m.Accounted []) {id : Nat} (hid : id < m.nextId)
    (hended : id ∉ m.ended.map Prod.fst) : ∃ task ∈ m.tasks, task.id = id := by
  have hnumber : id ∈ m.numbers := h.once.mem_iff.mpr (List.mem_range.mpr hid)
  rcases List.mem_append.mp hnumber with hlisted | hover
  · exact List.mem_map.mp hlisted
  · exact absurd hover hended

/-- No two tasks have the same number. -/
theorem nodup_tasks (h : m.Accounted active) : (m.tasks.map Task.id).Nodup :=
  (List.nodup_append.mp (List.nodup_append.mp h.nodup).2.1).1

/-- No task ends twice. -/
theorem nodup_ended (h : m.Accounted active) : (m.ended.map Prod.fst).Nodup :=
  (List.nodup_append.mp (List.nodup_append.mp h.nodup).2.1).2.1

/-- How a task has ended is what stands under its number. -/
theorem ending?_eq_some_iff (h : m.Accounted active) {id : Nat} {ending : Ending R} :
    m.ending? id = some ending ↔ (id, ending) ∈ m.ended := by
  rw [ending?, Option.map_eq_some_iff]
  constructor
  · rintro ⟨entry, hfound, rfl⟩
    have hid : entry.1 = id := by simpa using List.find?_some hfound
    exact hid ▸ List.mem_of_find?_eq_some hfound
  · intro hentry
    have hsome : (m.ended.find? fun entry => entry.1 == id).isSome = true := by
      rw [List.find?_isSome]
      exact ⟨_, hentry, by simp⟩
    obtain ⟨entry, hfound⟩ := Option.isSome_iff_exists.mp hsome
    -- No other entry stands under the same number.
    have hsame : entry = (id, ending) := List.inj_on_of_nodup_map h.nodup_ended
      (List.mem_of_find?_eq_some hfound) hentry (by simpa using List.find?_some hfound)
    exact ⟨entry, hfound, by rw [hsame]⟩

/-- The tasks beside a listed one have other numbers. -/
theorem ne_of_rest (h : m.Accounted active) {task : Task W ι R} {before after : List (Task W ι R)}
    (htasks : m.tasks = before ++ task :: after) {t : Task W ι R} (ht : t ∈ before ++ after) :
    t.id ≠ task.id := by
  have hnumbers := h.nodup_tasks
  rw [htasks] at hnumbers
  have hfirst : (task.id :: (before ++ after).map Task.id).Nodup :=
    (List.perm_middle.map Task.id).nodup_iff.mp hnumbers
  exact fun hid => (List.nodup_cons.mp hfirst).1 (hid ▸ List.mem_map_of_mem ht)

/-- A task that was listed becomes the active one. -/
theorem take {task : Task W ι R} {before after : List (Task W ι R)} (h : m.Accounted [])
    (htasks : m.tasks = before ++ task :: after) :
    Accounted [task.id] { m with tasks := before ++ after } := by
  refine ⟨?_, ?_⟩
  · refine List.Perm.trans ?_ h.once
    have hfirst : m.numbers.Perm (task.id :: numbers { m with tasks := before ++ after }) := by
      rw [numbers, numbers, htasks]
      exact (List.perm_middle.map Task.id).append_right _
    exact hfirst.symm
  · exact h.inTurn.sublist (sublist_of_eq htasks)

/-- Tasks are started under new numbers. -/
theorem enlist {world : W} {started : List (Task W ι R)} (h : m.Accounted active)
    (hstarted : m.Startable started) : (m.enlist world started).Accounted active := by
  refine ⟨?_, ?_⟩
  · have hlast : (active ++ (m.enlist world started).numbers).Perm
        ((active ++ m.numbers) ++ started.map Task.id) := by
      rw [List.append_assoc]
      refine List.Perm.append_left _ ?_
      show ((m.tasks ++ started).map Task.id ++ m.ended.map Prod.fst).Perm _
      rw [List.map_append, numbers, List.append_assoc, List.append_assoc]
      exact List.Perm.append_left _ List.perm_append_comm
    refine hlast.trans ?_
    rw [hstarted.numbered]
    show (_ ++ List.range' m.nextId started.length).Perm (List.range (m.nextId + started.length))
    rw [List.range_eq_range', ← List.range'_append_1, ← List.range_eq_range', Nat.zero_add]
    exact h.once.append_right _
  · show (m.tasks ++ started).Pairwise _
    rw [List.pairwise_append]
    refine ⟨h.inTurn, ?_, fun a ha b hb _ _ => ?_⟩
    · have hsorted : (started.map Task.id).Pairwise (· < ·) := by
        rw [hstarted.numbered]
        exact List.pairwise_lt_range'
      exact (List.pairwise_map.mp hsorted).imp fun hlt _ _ => hlt
    · exact Nat.lt_of_lt_of_le (h.id_lt_nextId ha) (hstarted.nextId_le hb)

/-- The active task ends. -/
theorem finish {id : Nat} (h : m.Accounted [id]) (ending : Ending R) :
    (m.finish id ending).Accounted [] := by
  refine ⟨?_, h.inTurn⟩
  have hmiddle : (m.finish id ending).numbers.Perm (id :: m.numbers) := List.perm_middle
  exact hmiddle.trans h.once

/-- The active task waits again, though not for a permit. -/
theorem park {task : Task W ι R} (h : m.Accounted [task.id]) (hwait : task.wait.queued = false) :
    (m.park task).Accounted [] := by
  refine ⟨?_, ?_⟩
  · have hmiddle : (m.park task).numbers.Perm (task.id :: m.numbers) := by
      show ((m.tasks ++ [task]).map Task.id ++ m.ended.map Prod.fst).Perm _
      rw [List.map_append, List.append_assoc]
      exact List.perm_middle
    exact hmiddle.trans h.once
  · show (m.tasks ++ [task]).Pairwise _
    rw [List.pairwise_append]
    refine ⟨h.inTurn, List.pairwise_singleton _ _, fun a _ b hb _ hqueued => ?_⟩
    rw [List.mem_singleton.mp hb] at hqueued
    exact absurd (hqueued.symm.trans hwait) (by simp)

theorem spawn (h : m.Accounted []) (pool : ι) (body : Process W ι R) :
    (m.spawn pool body).2.Accounted [] := by
  obtain ⟨started, hstarted, heq⟩ := exists_spawn_eq m pool body
  rw [heq]
  exact h.enlist hstarted

variable [DecidableEq ι]

theorem lose {id : Nat} (h : m.Accounted [id]) (pool : ι) (ending : Ending R) :
    (m.lose id pool ending).Accounted [] :=
  ⟨(h.finish ending).once, (h.finish ending).inTurn⟩

/-- The active task comes to rest. -/
theorem rests {id : Nat} {pool : ι} (h : m.Accounted [id]) (hrests : m.Rests id pool m') :
    m'.Accounted [] := by
  cases hrests with
  | waits wait hwait => exact h.park hwait
  | finishes result => exact h.finish _
  | breaks => exact h.lose pool _

/-- The tasks of a pool are cancelled. -/
theorem cancel (h : m.Accounted []) (pool : ι) : (m.cancel pool).Accounted [] := by
  refine ⟨?_, h.inTurn.sublist List.filter_sublist⟩
  refine List.Perm.trans ?_ h.once
  -- Those that are left and those that are cancelled make up all that were listed.
  have hparts : ((m.tasks.filter fun task => task.pool ≠ pool) ++ m.tasksOf pool).Perm m.tasks := by
    refine List.Perm.trans List.perm_append_comm ?_
    have hsplit := List.filter_append_perm (fun task : Task W ι R => decide (task.pool = pool)) m.tasks
    simpa [tasksOf] using hsplit
  have hcancelled : ((m.tasksOf pool).map fun task => (task.id, Ending.cancelled (R := R))).map
      Prod.fst = (m.tasksOf pool).map Task.id := by
    rw [List.map_map]
    rfl
  show (_ ++ (_ ++ m.ended).map Prod.fst).Perm (m.tasks.map Task.id ++ m.ended.map Prod.fst)
  rw [List.map_append, hcancelled, ← List.append_assoc, ← List.map_append]
  exact (hparts.map Task.id).append_right _

/-- Whatever happens, every task is still accounted for. -/
theorem step {event : Event W ι R} (h : m.Accounted []) (hstep : m.Step event m') :
    m'.Accounted [] := by
  cases hstep with
  | turn hturn =>
      cases hturn with
      | @goesOn task before after htasks _ _ =>
          obtain ⟨world, started, hstarted, hrests⟩ :=
            rests_resume task { m with tasks := before ++ after }
          exact ((h.take htasks).enlist hstarted).rests hrests
      | passes _ => exact ⟨h.once, h.inTurn⟩
      | interrupts =>
          unfold raiseInterrupt
          split
          · exact h
          · exact ⟨h.once, h.inTurn⟩
      | closes pool => exact ⟨h.once, h.inTurn⟩
      | drops htasks => exact (h.take htasks).lose _ _
      | clears pool => exact h.cancel pool
  | starts pool body => exact h.spawn pool body
  | changes world => exact ⟨h.once, h.inTurn⟩

theorem trace {events : List (Event W ι R)} (h : m.Accounted [])
    (htrace : Trace Step m events m') : m'.Accounted [] := by
  induction htrace with
  | nil => exact h
  | snoc _ hlast ih => exact ih.step hlast

end Accounted

end MenuActions.Schedule.Machine
