import MenuActions.Proofs.Schedule.Accounts
import MenuActions.Proofs.Schedule.ClosedPools
import MenuActions.Schedule.Workload

/-!
# Permits in turn

Whatever happens on a machine, a pool never has more tasks running than it has permits, its tasks get
their permits in the order in which they were started, and none is left waiting beside a free permit
when no task can go on.  Once the pool is closed it refuses every task, and only those that waited
already are still given permits.

`Served` is the invariant that carries this, for the tasks that have been given a permit so far;
`Served.step` says that a step keeps it, and `permits_given_in_turn` puts the result together.
-/

namespace MenuActions.Schedule

variable {W ι R : Type} [DecidableEq ι]

/-- The number of the task that is given a permit of a pool by an event. -/
def Event.permitted? (pool : ι) : Event W ι R → Option Nat
  | .goesOn task => if task.pool = pool ∧ task.wait.queued = true then some task.id else none
  | _ => none

/-- The numbers of the tasks that are given a permit of a pool by some events, in that order. -/
def Event.permitted (pool : ι) (events : List (Event W ι R)) : List Nat :=
  events.filterMap (Event.permitted? pool)

theorem Event.permitted_concat (pool : ι) (events : List (Event W ι R)) (event : Event W ι R) :
    Event.permitted pool (events ++ [event]) =
      Event.permitted pool events ++ (event.permitted? pool).toList := by
  rw [permitted, permitted, List.filterMap_append, List.filterMap_cons]
  cases event.permitted? pool <;> rfl

/-- Whether a task holds a permit of a pool. -/
def Task.holds (pool : ι) (task : Task W ι R) : Bool :=
  decide (task.pool = pool) && !task.wait.queued

@[simp]
theorem Task.holds_iff {pool : ι} {task : Task W ι R} :
    task.holds pool = true ↔ task.pool = pool ∧ task.wait.queued = false := by
  simp [Task.holds]

namespace Machine

variable {m m' : Machine W ι R} {pool : ι} {given : List Nat} {event : Event W ι R}
  {events : List (Event W ι R)}

theorem running_eq_countP (m : Machine W ι R) (pool : ι) :
    m.running pool = m.tasks.countP (Task.holds pool) := by
  rw [running, tasksOf, List.countP_filter]
  refine List.countP_congr fun task _ => ?_
  simp [and_comm]

/-- A task that waits for a permit can go on only when one is left. -/
theorem running_lt_of_wakeTime {task : Task W ι R} (hqueued : task.wait.queued = true)
    (h : m.wakeTime task = some m.now) : m.running task.pool < (m.pools task.pool).permits := by
  rw [wakeTime_of_queued hqueued] at h
  split at h
  · assumption
  · exact absurd h (by simp)

/-- No task can go on. -/
def Settled (m : Machine W ι R) : Prop :=
  ∀ task after, ¬m.Turn (.goesOn task) after

/-- The numbers of the tasks, of those that have been given a permit, that have not ended. -/
def unended (m : Machine W ι R) (given : List Nat) : List Nat :=
  given.filter fun id => (m.ending? id).isNone

/-- The tasks of a pool that have been given a permit so far, while some tasks are active: of those that
have not ended they are the ones that hold a permit, and every task that waits for one was started
after them. -/
structure Served (pool : ι) (given : List Nat) (active : List (Task W ι R)) (m : Machine W ι R) :
    Prop where
  accounted : m.Accounted (active.map Task.id)
  issued : ∀ id ∈ given, id < m.nextId
  going : ∀ task ∈ active, task.id ∈ given ↔ task.pool = pool
  held : ∀ task ∈ m.tasks, task.id ∈ given ↔ task.pool = pool ∧ task.wait.queued = false
  inTurn : given.Pairwise (· < ·)
  ahead : ∀ task ∈ m.tasks, task.pool = pool → task.wait.queued = true →
    ∀ id ∈ given, id < task.id
  room : active.countP (fun task => task.pool = pool) + m.running pool ≤ (m.pools pool).permits

namespace Served

variable {active : List (Task W ι R)} {task : Task W ι R} {before after : List (Task W ι R)}

theorem start (world : W) (pools : ι → Pool) (pool : ι) :
    Served pool [] [] (Machine.start world pools : Machine W ι R) :=
  ⟨.start world pools, fun _ h => absurd h List.not_mem_nil, fun _ h => absurd h List.not_mem_nil,
    fun _ h => absurd h List.not_mem_nil, List.Pairwise.nil, fun _ h => absurd h List.not_mem_nil,
    Nat.zero_le _⟩

/-- Nothing is started, and no task gets a permit. -/
theorem shrink (h : m.Served pool given []) (haccounted : m'.Accounted [])
    (htasks : m'.tasks.Sublist m.tasks) (hnextId : m'.nextId = m.nextId)
    (hpermits : (m'.pools pool).permits = (m.pools pool).permits) : m'.Served pool given [] := by
  refine ⟨haccounted, ?_, h.going, fun task ht => h.held task (htasks.subset ht), h.inTurn,
    fun task ht => h.ahead task (htasks.subset ht), ?_⟩
  · rw [hnextId]
    exact h.issued
  · rw [hpermits, running_eq_countP]
    refine Nat.le_trans (Nat.add_le_add_left htasks.countP_le _) ?_
    rw [← running_eq_countP]
    exact h.room

/-- Tasks that are started wait behind those that were started before. -/
theorem enlist {world : W} {started : List (Task W ι R)} (h : m.Served pool given active)
    (hstarted : m.Startable started) : (m.enlist world started).Served pool given active := by
  have hnew : ∀ task ∈ started, ∀ id ∈ given, id < task.id := by
    intro task htask id hid
    exact Nat.lt_of_lt_of_le (h.issued id hid) (hstarted.nextId_le htask)
  refine ⟨h.accounted.enlist hstarted, ?_, h.going, fun task ht => ?_, h.inTurn,
    fun task ht hpool hqueued => ?_, ?_⟩
  · exact fun id hid => Nat.lt_of_lt_of_le (h.issued id hid) (Nat.le_add_right _ _)
  · rcases List.mem_append.mp ht with hold | hstart
    · exact h.held task hold
    · have hqueued := hstarted.queued task hstart
      refine ⟨fun hid => absurd (hnew task hstart _ hid) (Nat.lt_irrefl _), fun hholds => ?_⟩
      exact absurd (hqueued.symm.trans hholds.2) (by simp)
  · rcases List.mem_append.mp ht with hold | hstart
    · exact h.ahead task hold hpool hqueued
    · exact hnew task hstart
  · have hnone : started.countP (Task.holds pool) = 0 := by
      rw [List.countP_eq_zero]
      intro task htask hholds
      exact absurd ((hstarted.queued task htask).symm.trans (Task.holds_iff.mp hholds).2) (by simp)
    have hroom := h.room
    rw [running_eq_countP] at hroom ⊢
    show _ + (m.tasks ++ started).countP _ ≤ (m.pools pool).permits
    rw [List.countP_append, hnone]
    exact hroom

/-- The first of the tasks that wait for a permit of the pool is given one. -/
theorem permit (h : m.Served pool given []) (htasks : m.tasks = before ++ task :: after)
    (hpool : task.pool = pool) (hqueued : task.wait.queued = true)
    (hfree : m.running pool < (m.pools pool).permits)
    (hfirst : ∀ other ∈ before, other.pool = pool → other.wait.queued = false) :
    Served pool (given ++ [task.id]) [task] { m with tasks := before ++ after } := by
  have htask : task ∈ m.tasks := by simp [htasks]
  have hrest : ∀ t ∈ before ++ after, t ∈ m.tasks ∧ t.id ≠ task.id := by
    intro t ht
    exact ⟨(sublist_of_eq htasks).subset ht, h.accounted.ne_of_rest htasks ht⟩
  refine ⟨h.accounted.take htasks, fun id hid => ?_, fun t ht => ?_, fun t ht => ?_, ?_,
    fun t ht hp hq id hid => ?_, ?_⟩
  · rcases List.mem_append.mp hid with hold | hlast
    · exact h.issued id hold
    · rw [List.mem_singleton.mp hlast]
      exact h.accounted.id_lt_nextId htask
  · rw [List.mem_singleton.mp ht]
    simp [hpool]
  · obtain ⟨hlisted, hne⟩ := hrest t ht
    simp [h.held t hlisted, hne]
  · rw [List.pairwise_append]
    refine ⟨h.inTurn, List.pairwise_singleton _ _, fun id hid last hlast => ?_⟩
    rw [List.mem_singleton.mp hlast]
    exact h.ahead task htask hpool hqueued id hid
  · rcases List.mem_append.mp hid with hold | hlast
    · exact h.ahead t (hrest t ht).1 hp hq id hold
    · rw [List.mem_singleton.mp hlast]
      -- A task that still waits stands behind the one that was first.
      rcases List.mem_append.mp ht with hbefore | hafter
      · exact absurd (hq.symm.trans (hfirst t hbefore hp)) (by simp)
      · have horder := h.accounted.inTurn
        rw [htasks] at horder
        have hbehind := List.rel_of_pairwise_cons (List.pairwise_append.mp horder).2.1 hafter
        exact hbehind hqueued hq
  · have hone : [task].countP (fun t => t.pool = pool) = 1 := by simp [hpool]
    have hless : running { m with tasks := before ++ after } pool ≤ m.running pool := by
      rw [running_eq_countP, running_eq_countP]
      exact (sublist_of_eq htasks).countP_le
    show _ + _ ≤ (m.pools pool).permits
    omega

/-- A task that holds a permit, or is of another pool, becomes active. -/
theorem take (h : m.Served pool given []) (htasks : m.tasks = before ++ task :: after)
    (hkind : task.pool = pool → task.wait.queued = false) :
    Served pool given [task] { m with tasks := before ++ after } := by
  have htask : task ∈ m.tasks := by simp [htasks]
  have hrest : ∀ t ∈ before ++ after, t ∈ m.tasks := fun t ht => (sublist_of_eq htasks).subset ht
  refine ⟨h.accounted.take htasks, h.issued, fun t ht => ?_, fun t ht => h.held t (hrest t ht),
    h.inTurn, fun t ht => h.ahead t (hrest t ht), ?_⟩
  · rw [List.mem_singleton.mp ht, h.held task htask]
    exact ⟨fun hholds => hholds.1, fun hpool => ⟨hpool, hkind hpool⟩⟩
  · have hroom := h.room
    rw [running_eq_countP, htasks] at hroom
    rw [running_eq_countP]
    show [task].countP _ + (before ++ after).countP _ ≤ (m.pools pool).permits
    have hcount : [task].countP (fun t => t.pool = pool) = [task].countP (Task.holds pool) := by
      by_cases hpool : task.pool = pool
      · simp [Task.holds, hpool, hkind hpool]
      · simp [Task.holds, hpool]
    rw [hcount, List.countP_append]
    rw [List.countP_append, List.countP_cons] at hroom
    rw [List.countP_singleton]
    simp only [List.countP_nil, Nat.zero_add] at hroom
    omega

/-- The active task comes to rest, with its permit or without. -/
theorem rests (h : m.Served pool given [task]) (hrests : m.Rests task.id task.pool m') :
    m'.Served pool given [] := by
  have haccounted : m'.Accounted [] := h.accounted.rests hrests
  have hnone : ∀ t ∈ ([] : List (Task W ι R)), t.id ∈ given ↔ t.pool = pool :=
    fun _ ht => absurd ht List.not_mem_nil
  have hroom := h.room
  cases hrests with
  | waits wait hwait =>
      have hgoing := h.going task (List.mem_singleton_self task)
      refine ⟨haccounted, h.issued, hnone, fun t ht => ?_, h.inTurn, fun t ht hpool hqueued => ?_, ?_⟩
      · rcases List.mem_append.mp ht with hold | hself
        · exact h.held t hold
        · rw [List.mem_singleton.mp hself]
          exact hgoing.trans ⟨fun hpool => ⟨hpool, hwait⟩, fun hholds => hholds.1⟩
      · rcases List.mem_append.mp ht with hold | hself
        · exact h.ahead t hold hpool hqueued
        · rw [List.mem_singleton.mp hself] at hqueued
          exact absurd (hqueued.symm.trans hwait) (by simp)
      · rw [running_eq_countP] at hroom ⊢
        let rested : Task W ι R := ⟨task.id, task.pool, wait⟩
        have hsame : [rested].countP (Task.holds pool) = [task].countP (fun t => t.pool = pool) := by
          simp [rested, Task.holds, List.countP_singleton, hwait]
        show 0 + (m.tasks ++ [rested]).countP (Task.holds pool) ≤ _
        rw [List.countP_append, hsame]
        show _ ≤ (m.pools pool).permits
        omega
  | finishes result =>
      exact ⟨haccounted, h.issued, hnone, h.held, h.inTurn, h.ahead,
        Nat.le_trans (Nat.add_le_add_right (Nat.zero_le _) _) hroom⟩
  | breaks =>
      refine ⟨haccounted, h.issued, hnone, h.held, h.inTurn, h.ahead, ?_⟩
      rw [permits_lose]
      exact Nat.le_trans (Nat.add_le_add_right (Nat.zero_le _) _) hroom

/-- Whatever happens, the pool's tasks are served in turn. -/
theorem step (h : m.Served pool given []) (hstep : m.Step event m') :
    m'.Served pool (given ++ (event.permitted? pool).toList) [] := by
  have haccounted := h.accounted.step hstep
  have hpermits := hstep.permits pool
  cases hstep with
  | turn hturn =>
      cases hturn with
      | @goesOn task before after htasks hready hfirst =>
          obtain ⟨world, started, hstarted, hrests⟩ :=
            rests_resume task { m with tasks := before ++ after }
          by_cases hgets : task.pool = pool ∧ task.wait.queued = true
          · obtain ⟨hpool, hqueued⟩ := hgets
            have hfree : m.running pool < (m.pools pool).permits :=
              hpool ▸ running_lt_of_wakeTime hqueued hready
            have hgiven := h.permit htasks hpool hqueued hfree (hpool ▸ hfirst hqueued)
            rw [Event.permitted?, if_pos ⟨hpool, hqueued⟩]
            exact (hgiven.enlist hstarted).rests hrests
          · have hkind : task.pool = pool → task.wait.queued = false := by
              intro hpool
              simpa using fun hqueued => hgets ⟨hpool, hqueued⟩
            rw [Event.permitted?, if_neg hgets]
            simpa using ((h.take htasks hkind).enlist hstarted).rests hrests
      | passes _ => simpa [Event.permitted?] using h.shrink haccounted (.refl _) rfl hpermits
      | interrupts =>
          have hsame := h.shrink haccounted (by rw [tasks_raiseInterrupt]) ?_ hpermits
          · simpa [Event.permitted?] using hsame
          · unfold raiseInterrupt
            split <;> rfl
      | closes _ => simpa [Event.permitted?] using h.shrink haccounted (.refl _) rfl hpermits
      | @drops task before after htasks =>
          simpa [Event.permitted?] using h.shrink haccounted (sublist_of_eq htasks) rfl hpermits
      | clears _ =>
          simpa [Event.permitted?] using h.shrink haccounted List.filter_sublist rfl hpermits
  | starts target body =>
      obtain ⟨started, hstarted, heq⟩ := exists_spawn_eq m target body
      rw [heq]
      simpa [Event.permitted?] using h.enlist hstarted
  | changes _ => simpa [Event.permitted?] using h.shrink haccounted (.refl _) rfl hpermits

theorem trace (h : m.Served pool given []) (htrace : Trace Step m events m') :
    m'.Served pool (given ++ Event.permitted pool events) [] := by
  induction htrace with
  | nil => simpa [Event.permitted] using h
  | snoc _ hlast ih =>
      rw [Event.permitted_concat, ← List.append_assoc]
      exact ih.step hlast

/-- Of the tasks that have been given a permit, those that have not ended hold it. -/
theorem perm_unended (h : m.Served pool given []) :
    (m.unended given).Perm ((m.tasks.filter (Task.holds pool)).map Task.id) := by
  have hgiven : (m.unended given).Nodup :=
    (h.inTurn.imp fun hlt => Nat.ne_of_lt hlt).sublist List.filter_sublist
  have hholders : ((m.tasks.filter (Task.holds pool)).map Task.id).Nodup :=
    h.accounted.nodup_tasks.sublist (List.filter_sublist.map Task.id)
  refine (List.perm_ext_iff_of_nodup hgiven hholders).mpr fun id => ?_
  rw [unended, List.mem_filter, isNone_ending?_iff]
  constructor
  · rintro ⟨hid, hopen⟩
    obtain ⟨task, htask, rfl⟩ := h.accounted.exists_of_not_ended (h.issued id hid) hopen
    have hholds := (h.held task htask).mp hid
    exact List.mem_map_of_mem (List.mem_filter.mpr ⟨htask, Task.holds_iff.mpr hholds⟩)
  · intro hid
    obtain ⟨task, htask, rfl⟩ := List.mem_map.mp hid
    obtain ⟨hlisted, hholds⟩ := List.mem_filter.mp htask
    exact ⟨(h.held task hlisted).mpr (Task.holds_iff.mp hholds), h.accounted.not_ended hlisted⟩

theorem length_unended (h : m.Served pool given []) :
    (m.unended given).length = m.running pool := by
  rw [h.perm_unended.length_eq, List.length_map, running_eq_countP, List.countP_eq_length_filter]

end Served

/-- When a task waits for a permit though no task can go on, all permits of its pool are taken. -/
theorem permits_le_of_settled (hsettled : m.Settled) {task : Task W ι R} (htask : task ∈ m.tasks)
    (hpool : task.pool = pool) (hqueued : task.wait.queued = true) :
    (m.pools pool).permits ≤ m.running pool := by
  -- Of the tasks that wait for a permit of the pool, the first one could go on.
  let waits : Task W ι R → Bool := fun t => decide (t.pool = pool) && t.wait.queued
  have hfound : (m.tasks.find? waits).isSome = true := by
    rw [List.find?_isSome]
    exact ⟨task, htask, by simp [waits, hpool, hqueued]⟩
  obtain ⟨first, hfirst⟩ := Option.isSome_iff_exists.mp hfound
  obtain ⟨hwaits, before, after, htasks, hbefore⟩ := List.find?_eq_some_iff_append.mp hfirst
  obtain ⟨hp, hq⟩ : first.pool = pool ∧ first.wait.queued = true := by simpa [waits] using hwaits
  by_cases hfree : m.running pool < (m.pools pool).permits
  · have hready : m.wakeTime first = some m.now := by
      rw [wakeTime_of_queued hq, hp, if_pos hfree]
    refine absurd (Turn.goesOn htasks hready fun _ other hother hsame => ?_) (hsettled first _)
    simpa [waits, hsame.trans hp] using hbefore other hother
  · omega

/-- A closed pool gives its permits only to tasks that waited for them when it was closed. -/
theorem waited_of_permitted (h : Trace Step m events m') (hclosed : (m.pools pool).closed = true) :
    ∀ id ∈ Event.permitted pool events,
      ∃ task ∈ m.tasks, task.id = id ∧ task.pool = pool ∧ task.wait.queued = true := by
  induction h with
  | nil => exact fun id hid => absurd hid List.not_mem_nil
  | snoc hfirst hlast ih =>
      intro id hid
      rw [Event.permitted_concat] at hid
      rcases List.mem_append.mp hid with hold | hnew
      · exact ih id hold
      · cases hlast with
        | turn hturn =>
            cases hturn with
            | @goesOn task before after htasks _ _ =>
                rw [Event.permitted?] at hnew
                split at hnew
                · rename_i hgets
                  rw [Option.toList_some, List.mem_singleton] at hnew
                  have hlisted := hfirst.mem_of_queued hclosed (by simp [htasks]) hgets.1 hgets.2
                  exact ⟨task, hlisted, hnew.symm, hgets⟩
                · exact absurd hnew (by simp)
            | _ => exact absurd hnew List.not_mem_nil
        | _ => exact absurd hnew List.not_mem_nil

/-- Permits in turn.  On a machine on which anything may have happened, in any order, a pool for some
workers never has more tasks that have been given a permit and have not ended than it has workers, and
one if it has none.  Its permits are given in the order in which the tasks were started, past none that
still waits.  When no task can go on and yet one waits for a permit, all workers are busy.  From the
moment at which the pool is closed, it refuses every task and keeps no trace of it, and permits are only
given to tasks that waited for them at that moment. -/
theorem permits_given_in_turn {world : W} {pools : ι → Pool} {workers : Nat}
    (hworkers : pools pool = .ofWorkers workers) (h : Trace Step (start world pools) events m) :
    let given := Event.permitted pool events
    (m.unended given).length ≤ max workers 1 ∧
    (given.Pairwise (· < ·) ∧
      ∀ task ∈ m.tasksOf pool, task.wait.queued = true → ∀ id ∈ given, id < task.id) ∧
    (m.Settled → ∀ task ∈ m.tasksOf pool, task.wait.queued = true →
      (m.unended given).length = max workers 1) ∧
    ∀ later more, Trace Step (m.close pool) more later →
      (∀ body, later.spawn pool body = (none, later)) ∧
      ∀ id ∈ Event.permitted pool more,
        ∃ task ∈ m.tasksOf pool, task.id = id ∧ task.wait.queued = true := by
  intro given
  have hserved : m.Served pool given [] := (Served.start world pools pool).trace h
  have hpermits : (m.pools pool).permits = max workers 1 :=
    (h.permits pool).trans (congrArg Pool.permits hworkers)
  have hroom : (m.unended given).length ≤ max workers 1 := by
    have hbound := hserved.room
    rw [hpermits, List.countP_nil] at hbound
    rw [hserved.length_unended]
    omega
  refine ⟨hroom, ⟨hserved.inTurn, fun task htask hqueued => ?_⟩, fun hsettled task htask hqueued => ?_,
    fun later more hlater => ⟨fun body => ?_, fun id hid => ?_⟩⟩
  · obtain ⟨hlisted, hpool⟩ := mem_tasksOf.mp htask
    exact hserved.ahead task hlisted hpool hqueued
  · obtain ⟨hlisted, hpool⟩ := mem_tasksOf.mp htask
    have hbusy := permits_le_of_settled hsettled hlisted hpool hqueued
    rw [hpermits, ← hserved.length_unended] at hbusy
    exact Nat.le_antisymm hroom hbusy
  · exact spawn_of_closed (hlater.closed (closed_close m pool)) body
  · obtain ⟨task, hlisted, hid, hpool, hqueued⟩ :=
      waited_of_permitted hlater (closed_close m pool) id hid
    exact ⟨task, mem_tasksOf.mpr ⟨hlisted, hpool⟩, hid, hqueued⟩

/-- Of two tasks on a pool for no workers the first is given the one permit, and the second waits. -/
theorem permits_given_in_turn_pair :
    ∃ events, ∃ m : Machine (List NoteEntry) Unit Unit,
      Trace Step (start [] fun _ => .ofWorkers 0) events m ∧ m.Settled ∧
      Event.permitted () events = [0] ∧ (m.unended [0]).length = 1 ∧
      (∃ task ∈ m.tasksOf (), task.wait.queued = true ∧ 0 < task.id) ∧
      ∀ body, (m.close ()).spawn () body = (none, m.close ()) := by
  let pools : Unit → Pool := fun _ => .ofWorkers 0
  let began : Machine (List NoteEntry) Unit Unit := start [] pools
  let long : Process (List NoteEntry) Unit Unit := (⟨"a", .plain, 1000⟩ : Workload).process
  let short : Process (List NoteEntry) Unit Unit := (⟨"b", .panicking, 10⟩ : Workload).process
  let first : Task (List NoteEntry) Unit Unit := ⟨0, (), .permit long⟩
  let second : Task (List NoteEntry) Unit Unit := ⟨1, (), .permit short⟩
  let both := ((began.spawn () long).2.spawn () short).2
  let m := resume first { both with tasks := [second] }
  have htrace : Trace Step began [.starts () long, .starts () short, .goesOn first] m := by
    have hstarted : Trace Step began [.starts () long, .starts () short] both :=
      (Trace.single (.starts () long)).snoc (.starts () short)
    have htasks : both.tasks = [] ++ first :: [second] := rfl
    have hgoes : both.Turn (.goesOn first) m :=
      .goesOn htasks rfl fun _ _ hother => absurd hother List.not_mem_nil
    exact hstarted.snoc (.turn hgoes)
  have hsettled : m.Settled := by
    rintro task after (⟨htasks, hready, _⟩)
    have htask : task ∈ m.tasks := by simp [htasks]
    rcases List.mem_cons.mp htask with rfl | hlast
    · exact absurd hready (by decide)
    · rw [List.mem_singleton.mp hlast] at hready
      exact absurd hready (by decide)
  have hworkers : pools () = .ofWorkers 0 := rfl
  obtain ⟨_, ⟨_, hahead⟩, hbusy, hclosed⟩ := permits_given_in_turn hworkers htrace
  have hsecond : second ∈ m.tasksOf () := mem_tasksOf.mpr ⟨List.mem_cons_self, rfl⟩
  exact ⟨_, m, htrace, hsettled, rfl, hbusy hsettled second hsecond rfl,
    ⟨second, hsecond, rfl, hahead second hsecond rfl 0 (List.mem_singleton_self 0)⟩,
    (hclosed _ _ .nil).1⟩

end Machine

end MenuActions.Schedule
