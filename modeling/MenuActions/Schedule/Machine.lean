import MenuActions.Schedule.Process

/-!
# The schedule of tasks

Tasks run on pools with a limited number of permits, under a clock that moves only when every task
waits. A pool gives its permits in the order in which the tasks were started. Of the tasks that can
go on at the earliest moment, the one that has waited longest goes on first.

The schedule is that of a runtime with a single thread. A task that goes on does so until it waits again
or ends, so the start of another task and a call of a service are not interleaved with what other tasks
do, and new tasks are first polled in the order in which they were started. Threads that run side by side
have schedules that are not among these.

`replaces_step`: a step replaces one wait by waits that come after it, so a run comes to an end.
-/

namespace MenuActions.Schedule

/-- How a task ended. -/
inductive Ending (R : Type)
  | finished (result : R)
  | panicked
  | cancelled

/-- The result of a task that came to its end. -/
def Ending.result? {R : Type} : Ending R → Option R
  | .finished result => some result
  | _ => none

/-- A pool of permits. -/
structure Pool where
  /-- How many tasks may run at once. -/
  permits : Nat
  /-- Whether the pool takes no more tasks. -/
  closed : Bool
  /-- How many tasks broke down and are still in the pool's table. -/
  leftover : Nat
  deriving DecidableEq, Repr

/-- A pool for some workers: at least one. -/
def Pool.ofWorkers (workers : Nat) : Pool :=
  ⟨max workers 1, false, 0⟩

/-- A task that waits. -/
structure Task (W ι R : Type) where
  id : Nat
  pool : ι
  wait : Wait W ι R

/-- The clock, the world, the pools and the tasks, which are listed by how long they have waited. -/
structure Machine (W ι R : Type) where
  now : Nat
  world : W
  /-- The moment from which the interrupt signal is on. -/
  interrupt : Option Nat
  pools : ι → Pool
  tasks : List (Task W ι R)
  ended : List (Nat × Ending R)
  /-- The number of the next task. -/
  nextId : Nat

namespace Machine

variable {W ι R : Type} [DecidableEq ι]

/-- The machine at moment zero, without tasks. -/
def start (world : W) (pools : ι → Pool) : Machine W ι R :=
  ⟨0, world, none, pools, [], [], 0⟩

/-- Whether the interrupt signal is on. -/
def interrupted (m : Machine W ι R) : Bool :=
  match m.interrupt with
  | some since => since ≤ m.now
  | none => false

/-- Turns the interrupt signal on. -/
def raiseInterrupt (m : Machine W ι R) : Machine W ι R :=
  if m.interrupted then m else { m with interrupt := some m.now }

/-- Changes one pool. -/
def updatePool (m : Machine W ι R) (pool : ι) (f : Pool → Pool) : Machine W ι R :=
  { m with pools := fun i => if i = pool then f (m.pools i) else m.pools i }

/-- The tasks of a pool that have not ended. -/
def tasksOf (m : Machine W ι R) (pool : ι) : List (Task W ι R) :=
  m.tasks.filter fun task => task.pool = pool

/-- How many tasks of a pool have not ended. -/
def inFlight (m : Machine W ι R) (pool : ι) : Nat :=
  (m.tasksOf pool).length

/-- How many tasks of a pool hold a permit. -/
def running (m : Machine W ι R) (pool : ι) : Nat :=
  (m.tasksOf pool).countP fun task => !task.wait.queued

/-- How a task ended, if it has. -/
def ending? (m : Machine W ι R) (id : Nat) : Option (Ending R) :=
  (m.ended.find? fun entry => entry.1 == id).map Prod.snd

/-- The result of a task that has ended with one. -/
def result? (m : Machine W ι R) (id : Nat) : Option R :=
  (m.ending? id).bind Ending.result?

/-- The machine after a task of some number has ended. -/
def finish (m : Machine W ι R) (id : Nat) (ending : Ending R) : Machine W ι R :=
  { m with ended := (id, ending) :: m.ended }

/-- The machine with one more task that waits. -/
def park (m : Machine W ι R) (task : Task W ι R) : Machine W ι R :=
  { m with tasks := m.tasks ++ [task] }

/-- Starts a task on a pool, unless the pool is closed. -/
def spawn (m : Machine W ι R) (pool : ι) (body : Process W ι R) : Option Nat × Machine W ι R :=
  if (m.pools pool).closed then (none, m)
  else (some m.nextId, { m with tasks := m.tasks ++ [⟨m.nextId, pool, .permit body⟩],
                                nextId := m.nextId + 1 })

/-- Lets a task go on until it waits or ends. -/
def proceed (id : Nat) (pool : ι) : Process W ι R → Machine W ι R → Machine W ι R
  | .done result, m => m.finish id (.finished result)
  | .crash, m =>
      (m.finish id .panicked).updatePool pool fun p => { p with leftover := p.leftover + 1 }
  | .act effect next, m =>
      proceed id pool (next m.world) { m with world := effect m.now m.world }
  | .sleep ms next, m =>
      if ms = 0 then proceed id pool next m else m.park ⟨id, pool, .moment (m.now + ms) next⟩
  | .pause ms next, m =>
      if m.interrupted then proceed id pool (next true) m
      else if ms = 0 then proceed id pool (next false) m
      else m.park ⟨id, pool, .signal (m.now + ms) next⟩
  | .spawn target body next, m =>
      proceed id pool (next (m.spawn target body).1) (m.spawn target body).2
  | .join task next, m =>
      match m.ending? task with
      | some ending => proceed id pool (next ending.result?) m
      | none => m.park ⟨id, pool, .ending task next⟩

/-- The moment, not before the present, at which a waiting task can go on. -/
def wakeTime (m : Machine W ι R) (task : Task W ι R) : Option Nat :=
  match task.wait with
  | .permit _ => if m.running task.pool < (m.pools task.pool).permits then some m.now else none
  | .moment due _ => some (max m.now due)
  | .signal due _ =>
      match m.interrupt with
      | some since => some (max m.now (min due since))
      | none => some (max m.now due)
  | .ending id _ => (m.ending? id).map fun _ => m.now

/-- The member of a list with the least time, the first one of several, and the list without it. -/
def earliest {α : Type} (time : α → Option Nat) : List α → Option (Nat × α × List α)
  | [] => none
  | x :: xs =>
      match time x, earliest time xs with
      | none, none => none
      | none, some (t, y, rest) => some (t, y, x :: rest)
      | some t, none => some (t, x, xs)
      | some t, some (t', y, rest) =>
          if t ≤ t' then some (t, x, xs) else some (t', y, x :: rest)

/-- Lets a task, which is no longer among the waiting ones, go on with what it waited for. -/
def resume (task : Task W ι R) (m : Machine W ι R) : Machine W ι R :=
  match task.wait with
  | .permit body => proceed task.id task.pool body m
  | .moment _ next => proceed task.id task.pool next m
  | .signal _ next => proceed task.id task.pool (next m.interrupted) m
  | .ending id next => proceed task.id task.pool (next (m.result? id)) m

/-- The next task that can go on, not after `limit`, and the machine after it went on. -/
def step? (limit : Option Nat) (m : Machine W ι R) : Option (Machine W ι R) :=
  match earliest m.wakeTime m.tasks with
  | none => none
  | some (time, task, rest) =>
      if limit.all (time ≤ ·) then some (resume task { m with now := time, tasks := rest })
      else none

/-- What a machine still waits for. -/
def waits (m : Machine W ι R) : List (Wait W ι R) :=
  m.tasks.map Task.wait

omit [DecidableEq ι] in
theorem perm_of_earliest {α : Type} {time : α → Option Nat} :
    ∀ {xs : List α} {t : Nat} {x : α} {rest : List α},
      earliest time xs = some (t, x, rest) → xs.Perm (x :: rest)
  | [], _, _, _, h => by simp [earliest] at h
  | y :: ys, t, x, rest, h => by
      unfold earliest at h
      split at h
      · simp at h
      · rename_i he
        simp only [Option.some.injEq, Prod.mk.injEq] at h
        obtain ⟨rfl, rfl, rfl⟩ := h
        exact ((perm_of_earliest he).cons y).trans (List.Perm.swap _ _ _)
      · simp only [Option.some.injEq, Prod.mk.injEq] at h
        obtain ⟨rfl, rfl, rfl⟩ := h
        exact List.Perm.refl _
      · rename_i he
        split at h
        · simp only [Option.some.injEq, Prod.mk.injEq] at h
          obtain ⟨rfl, rfl, rfl⟩ := h
          exact List.Perm.refl _
        · simp only [Option.some.injEq, Prod.mk.injEq] at h
          obtain ⟨rfl, rfl, rfl⟩ := h
          exact ((perm_of_earliest he).cons y).trans (List.Perm.swap _ _ _)

/-- A task that goes on leaves the other tasks alone and adds only waits that it can come to. -/
theorem tasks_proceed (id : Nat) (pool : ι) (p : Process W ι R) :
    ∀ m : Machine W ι R, ∃ new, (proceed id pool p m).tasks = m.tasks ++ new ∧
      ∀ task ∈ new, p.Reaches task.wait := by
  induction p with
  | done result => exact fun m => ⟨[], by simp [proceed, finish], by simp⟩
  | crash => exact fun m => ⟨[], by simp [proceed, finish, updatePool], by simp⟩
  | act effect next ih =>
      intro m
      obtain ⟨new, ht, hn⟩ := ih m.world { m with world := effect m.now m.world }
      exact ⟨new, ht, fun task h => ⟨_, hn task h⟩⟩
  | sleep ms next ih =>
      intro m
      unfold proceed
      split
      · obtain ⟨new, ht, hn⟩ := ih m
        exact ⟨new, ht, fun task h => Or.inr (hn task h)⟩
      · exact ⟨_, rfl, by simp [Process.Reaches]⟩
  | pause ms next ih =>
      intro m
      unfold proceed
      split
      · obtain ⟨new, ht, hn⟩ := ih true m
        exact ⟨new, ht, fun task h => Or.inr ⟨_, hn task h⟩⟩
      · split
        · obtain ⟨new, ht, hn⟩ := ih false m
          exact ⟨new, ht, fun task h => Or.inr ⟨_, hn task h⟩⟩
        · exact ⟨_, rfl, by simp [Process.Reaches]⟩
  | spawn target body next _ ih =>
      intro m
      unfold proceed
      obtain ⟨new, ht, hn⟩ := ih (m.spawn target body).1 (m.spawn target body).2
      by_cases hc : (m.pools target).closed
      · refine ⟨new, ?_, fun task h => Or.inr ⟨_, hn task h⟩⟩
        rw [ht]
        simp [spawn, hc]
      · refine ⟨⟨m.nextId, target, .permit body⟩ :: new, ?_, ?_⟩
        · rw [ht]
          simp [spawn, hc]
        · intro task h
          rcases List.mem_cons.mp h with rfl | h
          · exact Or.inl rfl
          · exact Or.inr ⟨_, hn task h⟩
  | join target next ih =>
      intro m
      unfold proceed
      split
      · rename_i ending _
        obtain ⟨new, ht, hn⟩ := ih ending.result? m
        exact ⟨new, ht, fun task h => Or.inr ⟨_, hn task h⟩⟩
      · exact ⟨_, rfl, by simp [Process.Reaches]⟩

theorem tasks_resume (task : Task W ι R) (m : Machine W ι R) :
    ∃ new, (resume task m).tasks = m.tasks ++ new ∧
      ∀ later ∈ new, later.wait.After task.wait := by
  unfold resume
  split
  all_goals rename_i h
  · obtain ⟨new, ht, hn⟩ := tasks_proceed task.id task.pool _ m
    exact ⟨new, ht, fun later hl => by rw [h]; exact hn later hl⟩
  · obtain ⟨new, ht, hn⟩ := tasks_proceed task.id task.pool _ m
    exact ⟨new, ht, fun later hl => by rw [h]; exact hn later hl⟩
  · obtain ⟨new, ht, hn⟩ := tasks_proceed task.id task.pool _ m
    exact ⟨new, ht, fun later hl => by rw [h]; exact ⟨_, hn later hl⟩⟩
  · obtain ⟨new, ht, hn⟩ := tasks_proceed task.id task.pool _ m
    exact ⟨new, ht, fun later hl => by rw [h]; exact ⟨_, hn later hl⟩⟩

/-- A step replaces one wait by later ones. -/
theorem replaces_step {limit : Option Nat} {m m' : Machine W ι R} (h : m.step? limit = some m') :
    Replaces Wait.After m'.waits m.waits := by
  unfold step? at h
  split at h
  · simp at h
  · rename_i time task rest he
    split at h
    · simp only [Option.some.injEq] at h
      subst h
      obtain ⟨new, ht, hn⟩ := tasks_resume task { m with now := time, tasks := rest }
      refine ⟨task.wait, rest.map Task.wait, new.map Task.wait, ?_, ?_, ?_⟩
      · exact (perm_of_earliest he).map Task.wait
      · rw [waits, ht, List.map_append]
        exact List.perm_append_comm
      · intro wait hw
        obtain ⟨later, hl, rfl⟩ := List.mem_map.mp hw
        exact hn later hl
    · simp at h

/-- Waits come to an end when one after another gives way to later ones. -/
instance : WellFoundedRelation (List (Wait W ι R)) :=
  ⟨Replaces Wait.After, wellFounded_replaces wellFounded_after⟩

/-- Lets tasks go on, not after `limit`, until none can or `enough` holds. -/
def drive (enough : Machine W ι R → Bool) (limit : Option Nat) (m : Machine W ι R) :
    Machine W ι R :=
  if enough m then m
  else
    match _h : m.step? limit with
    | some m' => drive enough limit m'
    | none => m
termination_by m.waits
decreasing_by exact replaces_step _h

/-- Lets every task that is ready go on until it waits again; time stands still. -/
def settle (m : Machine W ι R) : Machine W ι R :=
  m.drive (fun _ => false) (some m.now)

/-- Lets time pass up to a moment. -/
def advanceTo (moment : Nat) (m : Machine W ι R) : Machine W ι R :=
  let m' := m.drive (fun _ => false) (some moment)
  { m' with now := max m'.now moment }

/-- Lets time pass until a task has ended. -/
def awaitEnd (id : Nat) (m : Machine W ι R) : Machine W ι R :=
  m.drive (fun m => (m.ending? id).isSome) none

/-- Runs a process in the foreground, with no pool: the tasks go on while it waits. -/
def run : Process W ι R → Machine W ι R → Option R × Machine W ι R
  | .done result, m => (some result, m)
  | .crash, m => (none, m)
  | .act effect next, m => run (next m.world) { m with world := effect m.now m.world }
  | .sleep ms next, m => run next (if ms = 0 then m else m.advanceTo (m.now + ms))
  | .pause ms next, m =>
      if m.interrupted then run (next true) m
      else if ms = 0 then run (next false) m
      else
        let due := m.now + ms
        let waited := m.advanceTo (min due (m.interrupt.getD due))
        run (next waited.interrupted) waited
  | .spawn pool body next, m => run (next (m.spawn pool body).1) (m.spawn pool body).2
  | .join task next, m =>
      let waited := m.awaitEnd task
      run (next (waited.result? task)) waited

end Machine

end MenuActions.Schedule
