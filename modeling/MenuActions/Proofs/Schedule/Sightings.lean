import MenuActions.Proofs.Schedule.Accounts
import MenuActions.Proofs.Schedule.TimedCourse

/-!
# Sightings

What can be seen of the tasks of a machine from outside: that a task is started, that it obtains its
permit, what it does, and how it ends.  `Machine.seen` is what an event lets see.

Two machines of which one follows the other differ by a `Shift`: some tasks have come, some have ended,
one may have gone on, and the rest is as it was.  What is seen from one to the other is one thing for each
task that has come or ended (`of_changes_started`, `of_changes_gone`), and nothing for the others.
-/

namespace MenuActions.Schedule

variable {W ι R : Type}

/-- What can be seen of a task. -/
inductive Sight (W ι R : Type)
  | scheduled (pool : ι) (body : Process W ι R)
  | permitted
  | did (deed : Deed W ι R)
  | ended (ending : Ending R)

/-- What was seen of a task at a moment. -/
structure Sighting (W ι R : Type) where
  moment : Nat
  task : Nat
  sight : Sight W ι R

namespace Sighting

/-- What was seen of one task, in order. -/
def of (id : Nat) (log : List (Sighting W ι R)) : List (Nat × Sight W ι R) :=
  log.filterMap fun seen => if seen.task = id then some (seen.moment, seen.sight) else none

theorem of_append (id : Nat) (log more : List (Sighting W ι R)) :
    of id (log ++ more) = of id log ++ of id more :=
  List.filterMap_append

theorem mem_of {id moment : Nat} {sight : Sight W ι R} {log : List (Sighting W ι R)} :
    (moment, sight) ∈ of id log ↔ ⟨moment, id, sight⟩ ∈ log := by
  rw [of, List.mem_filterMap]
  constructor
  · rintro ⟨⟨moment', task, sight'⟩, hmem, hseen⟩
    split at hseen
    · rename_i hid
      obtain ⟨rfl, rfl⟩ := Prod.mk.inj (Option.some.inj hseen)
      exact hid ▸ hmem
    · exact absurd hseen (by simp)
  · exact fun h => ⟨_, h, if_pos rfl⟩

theorem of_eq_nil {id : Nat} {log : List (Sighting W ι R)} (h : id ∉ log.map task) :
    of id log = [] := by
  rw [List.eq_nil_iff_forall_not_mem]
  rintro ⟨moment, sight⟩ hmem
  exact h (List.mem_map.mpr ⟨_, mem_of.mp hmem, rfl⟩)

/-- When every task was seen once at most, what was seen of one of them is this. -/
theorem of_eq_singleton {seen : Sighting W ι R} {log : List (Sighting W ι R)}
    (hnodup : (log.map task).Nodup) (h : seen ∈ log) : of seen.task log = [(seen.moment, seen.sight)] := by
  obtain ⟨before, after, rfl⟩ := List.mem_iff_append.mp h
  rw [List.map_append, List.map_cons, List.nodup_append] at hnodup
  obtain ⟨-, hafter, hbefore⟩ := hnodup
  have hfirst : of seen.task before = [] :=
    of_eq_nil fun hmem => hbefore _ hmem _ List.mem_cons_self rfl
  have hlast : of seen.task after = [] := of_eq_nil (List.nodup_cons.mp hafter).1
  rw [← List.singleton_append, of_append, of_append, hfirst, hlast]
  simp [of]

end Sighting

open Sighting

/-- Some deeds with their moments, as they are seen. -/
def seenDeeds (trail : List (Nat × Deed W ι R)) : List (Nat × Sight W ι R) :=
  trail.map fun entry => (entry.1, .did entry.2)

/-! ## What is seen on a machine -/

/-- A task that waits for its permit, as it is seen when it is started. -/
def Task.arrival? (now : Nat) (task : Task W ι R) : Option (Sighting W ι R) :=
  match task.wait with
  | .permit body => some ⟨now, task.id, .scheduled task.pool body⟩
  | _ => none

theorem Task.arrival?_of_queued {task : Task W ι R} (now : Nat) (h : task.wait.queued = true) :
    ∃ body, task.wait = .permit body ∧
      task.arrival? now = some ⟨now, task.id, .scheduled task.pool body⟩ := by
  obtain ⟨id, pool, wait⟩ := task
  cases wait with
  | permit body => exact ⟨body, rfl, rfl⟩
  | moment due next => exact absurd h (by simp [Wait.queued])
  | signal due next => exact absurd h (by simp [Wait.queued])
  | ending awaited next => exact absurd h (by simp [Wait.queued])

namespace Machine

/-- The tasks that a machine has and an earlier one had not. -/
def arrivals (m m' : Machine W ι R) : List (Sighting W ι R) :=
  (m'.tasks.filter fun task => m.nextId ≤ task.id).filterMap (Task.arrival? m'.now)

/-- The tasks that have ended on a machine and not on an earlier one. -/
def departures (m m' : Machine W ι R) : List (Sighting W ι R) :=
  (m'.ended.take (m'.ended.length - m.ended.length)).map fun entry =>
    ⟨m'.now, entry.1, .ended entry.2⟩

/-- The tasks that have come and those that have ended from one machine to another. -/
def changes (m m' : Machine W ι R) : List (Sighting W ι R) :=
  arrivals m m' ++ departures m m'

/-- A task that goes on obtains its permit, if it has waited for one, and does what it does. -/
def going (m : Machine W ι R) (task : Task W ι R) : List (Sighting W ι R) :=
  (if task.wait.queued then [⟨m.now, task.id, .permitted⟩] else []) ++
    (deedsOf task m).map fun deed => ⟨m.now, task.id, .did deed⟩

/-- What is seen when something happens on a machine. -/
def seen (m : Machine W ι R) (event : Event W ι R) (m' : Machine W ι R) : List (Sighting W ι R) :=
  match event with
  | .goesOn task => going m task ++ changes m m'
  | _ => changes m m'

theorem of_going (m : Machine W ι R) (task : Task W ι R) :
    of task.id (m.going task) = (if task.wait.queued then [(m.now, .permitted)] else []) ++
      seenDeeds (deedsAt m.now (deedsOf task m)) := by
  have hdeeds : of task.id ((deedsOf task m).map fun deed => ⟨m.now, task.id, .did deed⟩) =
      seenDeeds (deedsAt m.now (deedsOf task m)) := by
    rw [of, List.filterMap_map, seenDeeds, deedsAt, List.map_map, ← List.filterMap_eq_map]
    refine List.filterMap_congr fun deed _ => ?_
    exact if_pos rfl
  rw [going, of_append, hdeeds]
  split
  · simp [of]
  · rfl

/-- What a task does by going on is seen of it at that moment. -/
theorem mem_going {m : Machine W ι R} {task : Task W ι R} {seen : Sighting W ι R}
    (h : seen ∈ m.going task) : seen.moment = m.now ∧ seen.task = task.id ∧
      (seen.sight = .permitted ∨ ∃ deed, seen.sight = .did deed) := by
  rcases List.mem_append.mp h with hpermit | hdeed
  · split at hpermit
    · rw [List.mem_singleton.mp hpermit]
      exact ⟨rfl, rfl, Or.inl rfl⟩
    · exact absurd hpermit List.not_mem_nil
  · obtain ⟨deed, -, rfl⟩ := List.mem_map.mp hdeed
    exact ⟨rfl, rfl, Or.inr ⟨deed, rfl⟩⟩

/-- Nothing is seen of the other tasks. -/
theorem of_going_other {m : Machine W ι R} {task : Task W ι R} {id : Nat} (hid : id ≠ task.id) :
    of id (m.going task) = [] := by
  refine of_eq_nil fun hmem => ?_
  obtain ⟨seen, hseen, rfl⟩ := List.mem_map.mp hmem
  exact hid (mem_going hseen).2.1

end Machine

/-! ## From one machine to the next -/

/-- From one machine to another some tasks have come, some have ended, and one may have gone on and wait
again. -/
structure Machine.Shift (m m' : Machine W ι R) (rest started rested : List (Task W ι R))
    (gone : List (Nat × Ending R)) : Prop where
  tasks : m'.tasks = rest ++ (started ++ rested)
  ended : m'.ended = gone ++ m.ended
  nextId : m'.nextId = m.nextId + started.length
  kept : ∀ task ∈ rest, task ∈ m.tasks
  known : ∀ task ∈ rested, task.id < m.nextId
  startable : m.Startable started

namespace Machine.Shift

variable {m m' : Machine W ι R} {rest started rested : List (Task W ι R)}
  {gone : List (Nat × Ending R)}

theorem arrivals_eq (h : m.Shift m' rest started rested gone) (haccounted : m.Accounted []) :
    arrivals m m' = started.filterMap (Task.arrival? m'.now) := by
  have hrest : (rest.filter fun task => m.nextId ≤ task.id) = [] := by
    refine List.filter_eq_nil_iff.mpr fun task htask => ?_
    have := haccounted.id_lt_nextId (h.kept task htask)
    simpa using this
  have hrested : (rested.filter fun task => m.nextId ≤ task.id) = [] := by
    refine List.filter_eq_nil_iff.mpr fun task htask => ?_
    simpa using h.known task htask
  have hstarted : (started.filter fun task => m.nextId ≤ task.id) = started := by
    refine List.filter_eq_self.mpr fun task htask => ?_
    simpa using h.startable.nextId_le htask
  rw [arrivals, h.tasks, List.filter_append, List.filter_append, hrest, hrested, hstarted,
    List.nil_append, List.append_nil]

theorem departures_eq (h : m.Shift m' rest started rested gone) :
    departures m m' = gone.map fun entry => ⟨m'.now, entry.1, .ended entry.2⟩ := by
  rw [departures, h.ended, List.length_append, Nat.add_sub_cancel, List.take_left]

theorem map_task_changes (h : m.Shift m' rest started rested gone) (haccounted : m.Accounted []) :
    (changes m m').map Sighting.task = started.map Task.id ++ gone.map Prod.fst := by
  -- Every task that has come waits for a permit, so none of them is left out.
  have hqueued : ∀ tasks : List (Task W ι R), (∀ task ∈ tasks, task.wait.queued = true) →
      (tasks.filterMap (Task.arrival? m'.now)).map Sighting.task = tasks.map Task.id := by
    intro tasks
    induction tasks with
    | nil => exact fun _ => rfl
    | cons task tasks ih =>
        intro hall
        obtain ⟨hfirst, hlater⟩ := List.forall_mem_cons.mp hall
        obtain ⟨body, -, harrival⟩ := Task.arrival?_of_queued m'.now hfirst
        rw [List.filterMap_cons_some harrival, List.map_cons, List.map_cons, ih hlater]
  rw [changes, h.arrivals_eq haccounted, h.departures_eq, List.map_append,
    hqueued started h.startable.queued, List.map_map]
  rfl

/-- No task both comes and ends, and none does either twice. -/
theorem nodup_changes (h : m.Shift m' rest started rested gone) (haccounted : m.Accounted [])
    (hafter : m'.Accounted []) : ((changes m m').map Sighting.task).Nodup := by
  have hnumbers : (m'.tasks.map Task.id ++ m'.ended.map Prod.fst).Nodup := hafter.nodup
  rw [h.map_task_changes haccounted]
  refine hnumbers.sublist (List.Sublist.append ?_ ?_)
  · rw [h.tasks]
    exact (List.sublist_append_of_sublist_right (List.sublist_append_left started rested)).map _
  · rw [h.ended]
    exact (List.sublist_append_left gone m.ended).map _

theorem of_changes_started (h : m.Shift m' rest started rested gone) (haccounted : m.Accounted [])
    (hafter : m'.Accounted []) {task : Task W ι R} (htask : task ∈ started) :
    ∃ body, task.wait = .permit body ∧
      of task.id (changes m m') = [(m'.now, .scheduled task.pool body)] := by
  obtain ⟨body, hwait, harrival⟩ :=
    Task.arrival?_of_queued m'.now (h.startable.queued task htask)
  have hmem : ⟨m'.now, task.id, .scheduled task.pool body⟩ ∈ changes m m' := by
    refine List.mem_append_left _ ?_
    rw [h.arrivals_eq haccounted]
    exact List.mem_filterMap.mpr ⟨task, htask, harrival⟩
  exact ⟨body, hwait, of_eq_singleton (h.nodup_changes haccounted hafter) hmem⟩

theorem of_changes_gone (h : m.Shift m' rest started rested gone) (haccounted : m.Accounted [])
    (hafter : m'.Accounted []) {entry : Nat × Ending R} (hentry : entry ∈ gone) :
    of entry.1 (changes m m') = [(m'.now, .ended entry.2)] := by
  have hmem : ⟨m'.now, entry.1, .ended entry.2⟩ ∈ changes m m' := by
    refine List.mem_append_right _ ?_
    rw [h.departures_eq]
    exact List.mem_map_of_mem hentry
  exact of_eq_singleton (h.nodup_changes haccounted hafter) hmem

theorem of_changes_other (h : m.Shift m' rest started rested gone) (haccounted : m.Accounted [])
    {id : Nat} (hstarted : id ∉ started.map Task.id) (hgone : id ∉ gone.map Prod.fst) :
    of id (changes m m') = [] := by
  refine of_eq_nil ?_
  rw [h.map_task_changes haccounted, List.mem_append]
  exact not_or.mpr ⟨hstarted, hgone⟩

/-- The tasks that have come, the one that has gone on and those that have ended have different numbers,
and none of the others has one of these. -/
theorem apart (h : m.Shift m' rest started rested gone) (hafter : m'.Accounted []) :
    let moved := started.map Task.id ++ (rested.map Task.id ++ gone.map Prod.fst)
    (rest.map Task.id).Disjoint moved ∧ (m.ended.map Prod.fst).Disjoint moved ∧ moved.Nodup := by
  intro moved
  have hnumbers : (rest.map Task.id ++ (moved ++ m.ended.map Prod.fst)).Nodup := by
    have hnodup : (m'.tasks.map Task.id ++ m'.ended.map Prod.fst).Nodup := hafter.nodup
    rw [h.tasks, h.ended] at hnodup
    simpa [moved, List.append_assoc] using hnodup
  obtain ⟨-, hmoved, hrest⟩ := List.nodup_append'.mp hnumbers
  obtain ⟨hnodup, -, hended⟩ := List.nodup_append'.mp hmoved
  exact ⟨(List.disjoint_append_right.mp hrest).1, List.disjoint_comm.mp hended, hnodup⟩

/-- Beyond the numbers that have been given, nobody has moved. -/
theorem not_moved (h : m.Shift m' rest started rested gone) (hafter : m'.Accounted []) {id : Nat}
    (hid : m'.nextId ≤ id) :
    id ∉ started.map Task.id ++ (rested.map Task.id ++ gone.map Prod.fst) := by
  intro hmoved
  have hnumber : id ∈ m'.numbers := by
    rw [numbers, h.tasks, h.ended]
    simp only [List.map_append, List.mem_append] at hmoved ⊢
    tauto
  exact absurd (hafter.lt_nextId hnumber) (Nat.not_lt.mpr hid)

end Machine.Shift

end MenuActions.Schedule
