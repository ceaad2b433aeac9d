import MenuActions.Proofs.Schedule.Drive
import MenuActions.Schedule.Shutdown
import Mathlib.Data.List.Forall2

/-!
# Machines that cannot be told apart

Worlds may hold something that no process looks at.  `same` says which worlds differ in nothing else;
two processes are alike when on such worlds they do the same things and end with the same results.

Machines are alike when their worlds are and their tasks wait for alike things in the same order.
Every operation leads from machines that are alike to machines that are alike (`Alike.step?` for one
step, `Alike.drive` for the loop), and `Alike.run` says that a process in the foreground has the same
result on both.
-/

namespace MenuActions.Schedule

variable {W ι R : Type} {same : W → W → Prop}

/-- Two processes that do the same on worlds that are the same. -/
inductive Process.Alike (same : W → W → Prop) : Process W ι R → Process W ι R → Prop
  | done (result : R) : Alike same (.done result) (.done result)
  | crash : Alike same .crash .crash
  | act {effect effect' : Nat → W → W} {next next' : W → Process W ι R}
      (heffect : ∀ now w w', same w w' → same (effect now w) (effect' now w'))
      (hnext : ∀ w w', same w w' → Alike same (next w) (next' w')) :
      Alike same (.act effect next) (.act effect' next')
  | sleep (ms : Nat) {next next' : Process W ι R} (hnext : Alike same next next') :
      Alike same (.sleep ms next) (.sleep ms next')
  | pause (ms : Nat) {next next' : Bool → Process W ι R}
      (hnext : ∀ interrupted, Alike same (next interrupted) (next' interrupted)) :
      Alike same (.pause ms next) (.pause ms next')
  | spawn (pool : ι) {body body' : Process W ι R} {next next' : Option Nat → Process W ι R}
      (hbody : Alike same body body') (hnext : ∀ task, Alike same (next task) (next' task)) :
      Alike same (.spawn pool body next) (.spawn pool body' next')
  | join (task : Nat) {next next' : Option R → Process W ι R}
      (hnext : ∀ result, Alike same (next result) (next' result)) :
      Alike same (.join task next) (.join task next')

namespace Process.Alike

variable {p q : Process W ι R}

theorem bind {k k' : R → Process W ι R} (h : p.Alike same q)
    (hk : ∀ result, (k result).Alike same (k' result)) :
    (p.bind k).Alike same (q.bind k') := by
  induction h with
  | done result => exact hk result
  | crash => exact .crash
  | act heffect _ ih => exact .act heffect ih
  | sleep ms _ ih => exact .sleep ms ih
  | pause ms _ ih => exact .pause ms ih
  | spawn pool hbody _ _ ih => exact .spawn pool hbody ih
  | join task _ ih => exact .join task ih

/-- Alike processes one after the other, and then alike continuations. -/
theorem sequence {ps qs : List (Process W ι R)} {k k' : List R → Process W ι R}
    (h : List.Forall₂ (Alike same) ps qs) (hk : ∀ results, (k results).Alike same (k' results)) :
    (Process.sequence ps k).Alike same (Process.sequence qs k') := by
  induction h generalizing k k' with
  | nil => exact hk []
  | cons hhead _ ih => exact hhead.bind fun result => ih fun results => hk (result :: results)

end Process.Alike

/-- Two waits for the same thing, with alike processes after them. -/
inductive Wait.Alike (same : W → W → Prop) : Wait W ι R → Wait W ι R → Prop
  | permit {body body' : Process W ι R} (hbody : body.Alike same body') :
      Alike same (.permit body) (.permit body')
  | moment (due : Nat) {next next' : Process W ι R} (hnext : next.Alike same next') :
      Alike same (.moment due next) (.moment due next')
  | signal (due : Nat) {next next' : Bool → Process W ι R}
      (hnext : ∀ interrupted, (next interrupted).Alike same (next' interrupted)) :
      Alike same (.signal due next) (.signal due next')
  | ending (task : Nat) {next next' : Option R → Process W ι R}
      (hnext : ∀ result, (next result).Alike same (next' result)) :
      Alike same (.ending task next) (.ending task next')

/-- Two tasks of one number and one pool that wait in the same way. -/
inductive Task.Alike (same : W → W → Prop) : Task W ι R → Task W ι R → Prop
  | intro (id : Nat) (pool : ι) {wait wait' : Wait W ι R} (hwait : wait.Alike same wait') :
      Alike same ⟨id, pool, wait⟩ ⟨id, pool, wait'⟩

/-- Two machines with the same worlds and alike tasks in the same order, and no other
difference. -/
inductive Machine.Alike (same : W → W → Prop) : Machine W ι R → Machine W ι R → Prop
  | intro {now : Nat} {world world' : W} {interrupt : Option Nat} {pools : ι → Pool}
      {tasks tasks' : List (Task W ι R)} {ended : List (Nat × Ending R)} {nextId : Nat}
      (hworld : same world world') (htasks : List.Forall₂ (Task.Alike same) tasks tasks') :
      Alike same ⟨now, world, interrupt, pools, tasks, ended, nextId⟩
        ⟨now, world', interrupt, pools, tasks', ended, nextId⟩

/-- Tasks that are kept for their pools are alike too. -/
theorem Task.filter_alike {tasks tasks' : List (Task W ι R)}
    (h : List.Forall₂ (Task.Alike same) tasks tasks') (keep : ι → Bool) :
    List.Forall₂ (Task.Alike same) (tasks.filter fun task => keep task.pool)
      (tasks'.filter fun task => keep task.pool) := by
  refine List.rel_filter ?_ h
  rintro _ _ ⟨id, pool, -⟩
  exact Iff.rfl

/-- What two alike tasks have in common is the same in alike lists. -/
theorem Task.map_alike {β : Type} {tasks tasks' : List (Task W ι R)} {f : Task W ι R → β}
    (h : List.Forall₂ (Task.Alike same) tasks tasks')
    (hf : ∀ {task task'}, Task.Alike same task task' → f task = f task') :
    tasks.map f = tasks'.map f := by
  rw [← List.forall₂_eq_eq_eq]
  exact List.rel_map (fun _ _ htask => hf htask) h

/-- Of alike lists, the members that come first are alike, and so are the rests. -/
theorem Machine.earliest_alike {α : Type} {same : α → α → Prop} {time time' : α → Option Nat}
    {xs ys : List α} (h : List.Forall₂ same xs ys)
    (htime : ∀ x y, same x y → time x = time' y) :
    (earliest time xs = none ∧ earliest time' ys = none) ∨
      ∃ t x y rest rest', earliest time xs = some (t, x, rest) ∧
        earliest time' ys = some (t, y, rest') ∧ same x y ∧ List.Forall₂ same rest rest' := by
  induction h with
  | nil => exact Or.inl ⟨rfl, rfl⟩
  | @cons x y xs ys hhead htail ih =>
      rw [earliest, earliest, htime x y hhead]
      rcases ih with ⟨hnone, hnone'⟩ | ⟨t, first, first', rest, rest', hsome, hsome', hfirst, hrest⟩
      · rw [hnone, hnone']
        cases time' y with
        | none => exact Or.inl ⟨rfl, rfl⟩
        | some now => exact Or.inr ⟨now, x, y, xs, ys, rfl, rfl, hhead, htail⟩
      · rw [hsome, hsome']
        have hlater : List.Forall₂ same (x :: rest) (y :: rest') := .cons hhead hrest
        cases time' y with
        | none => exact Or.inr ⟨t, first, first', _, _, rfl, rfl, hfirst, hlater⟩
        | some now =>
            dsimp only
            split
            · exact Or.inr ⟨now, x, y, xs, ys, rfl, rfl, hhead, htail⟩
            · exact Or.inr ⟨t, first, first', _, _, rfl, rfl, hfirst, hlater⟩

namespace Machine.Alike

variable [DecidableEq ι] {m m' : Machine W ι R}

omit [DecidableEq ι] in
theorem start {world world' : W} (pools : ι → Pool) (h : same world world') :
    (Machine.start world pools : Machine W ι R).Alike same (.start world' pools) :=
  ⟨h, .nil⟩

omit [DecidableEq ι] in
theorem world (h : m.Alike same m') : same m.world m'.world := by
  cases h with
  | intro hworld _ => exact hworld

omit [DecidableEq ι] in
theorem now_eq (h : m.Alike same m') : m.now = m'.now := by
  cases h
  rfl

omit [DecidableEq ι] in
theorem interrupt_eq (h : m.Alike same m') : m.interrupt = m'.interrupt := by
  cases h
  rfl

omit [DecidableEq ι] in
theorem interrupted_eq (h : m.Alike same m') : m.interrupted = m'.interrupted := by
  cases h
  rfl

omit [DecidableEq ι] in
theorem ending?_eq (h : m.Alike same m') (id : Nat) : m.ending? id = m'.ending? id := by
  cases h
  rfl

omit [DecidableEq ι] in
theorem result?_eq (h : m.Alike same m') (id : Nat) : m.result? id = m'.result? id := by
  cases h
  rfl

omit [DecidableEq ι] in
theorem tasks (h : m.Alike same m') : List.Forall₂ (Task.Alike same) m.tasks m'.tasks := by
  cases h with
  | intro _ htasks => exact htasks

theorem tasksOf (h : m.Alike same m') (pool : ι) :
    List.Forall₂ (Task.Alike same) (m.tasksOf pool) (m'.tasksOf pool) :=
  Task.filter_alike h.tasks fun other => other = pool

theorem inFlight_eq (h : m.Alike same m') (pool : ι) : m.inFlight pool = m'.inFlight pool :=
  (h.tasksOf pool).length_eq

theorem running_eq (h : m.Alike same m') (pool : ι) : m.running pool = m'.running pool := by
  have hqueued : (m.tasksOf pool).map (fun task => !task.wait.queued) =
      (m'.tasksOf pool).map fun task => !task.wait.queued := by
    refine Task.map_alike (h.tasksOf pool) ?_
    rintro _ _ ⟨id, pool, hwait⟩
    cases hwait <;> rfl
  have hcount := congrArg (List.countP id) hqueued
  rw [List.countP_map, List.countP_map] at hcount
  exact hcount

/-! ## Operations -/

omit [DecidableEq ι] in
theorem withWorld (h : m.Alike same m') {w w' : W} (hworld : same w w') :
    Alike same { m with world := w } { m' with world := w' } := by
  obtain ⟨-, htasks⟩ := h
  exact ⟨hworld, htasks⟩

omit [DecidableEq ι] in
/-- Alike changes to the worlds of alike machines. -/
theorem act (h : m.Alike same m') {effect effect' : Nat → W → W}
    (heffect : ∀ now w w', same w w' → same (effect now w) (effect' now w')) :
    Alike same { m with world := effect m.now m.world }
      { m' with world := effect' m'.now m'.world } := by
  refine h.withWorld ?_
  rw [h.now_eq]
  exact heffect _ _ _ h.world

omit [DecidableEq ι] in
theorem withNow (h : m.Alike same m') (now : Nat) :
    Alike same { m with now := now } { m' with now := now } := by
  obtain ⟨hworld, htasks⟩ := h
  exact ⟨hworld, htasks⟩

omit [DecidableEq ι] in
theorem raiseInterrupt (h : m.Alike same m') : m.raiseInterrupt.Alike same m'.raiseInterrupt := by
  unfold Machine.raiseInterrupt
  rw [h.interrupted_eq]
  split
  · exact h
  · obtain ⟨hworld, htasks⟩ := h
    exact ⟨hworld, htasks⟩

theorem updatePool (h : m.Alike same m') (pool : ι) (f : Pool → Pool) :
    (m.updatePool pool f).Alike same (m'.updatePool pool f) := by
  obtain ⟨hworld, htasks⟩ := h
  exact ⟨hworld, htasks⟩

omit [DecidableEq ι] in
theorem finish (h : m.Alike same m') (id : Nat) (ending : Ending R) :
    (m.finish id ending).Alike same (m'.finish id ending) := by
  obtain ⟨hworld, htasks⟩ := h
  exact ⟨hworld, htasks⟩

omit [DecidableEq ι] in
theorem park (h : m.Alike same m') {task task' : Task W ι R} (htask : task.Alike same task') :
    (m.park task).Alike same (m'.park task') := by
  obtain ⟨hworld, htasks⟩ := h
  exact ⟨hworld, List.rel_append htasks (.cons htask .nil)⟩

omit [DecidableEq ι] in
/-- A task gets the same number on both machines, or none on either. -/
theorem spawn (h : m.Alike same m') (pool : ι) {body body' : Process W ι R}
    (hbody : body.Alike same body') :
    (m.spawn pool body).1 = (m'.spawn pool body').1 ∧
      (m.spawn pool body).2.Alike same (m'.spawn pool body').2 := by
  obtain ⟨hworld, htasks⟩ := h
  unfold Machine.spawn
  dsimp only
  split
  · exact ⟨rfl, hworld, htasks⟩
  · exact ⟨rfl, hworld, List.rel_append htasks (.cons ⟨_, _, .permit hbody⟩ .nil)⟩

/-- Alike tasks that go on leave alike machines behind. -/
theorem proceed {p q : Process W ι R} (hp : p.Alike same q) (h : m.Alike same m') (id : Nat)
    (pool : ι) : (Machine.proceed id pool p m).Alike same (Machine.proceed id pool q m') := by
  induction hp generalizing m m' with
  | done result => exact h.finish id _
  | crash => exact (h.finish id _).updatePool pool _
  | act heffect _ ih =>
      exact ih _ _ h.world (h.act heffect)
  | sleep ms hnext ih =>
      rw [Machine.proceed, Machine.proceed, h.now_eq]
      split
      · exact ih h
      · exact h.park ⟨_, _, .moment _ hnext⟩
  | pause ms hnext ih =>
      rw [Machine.proceed, Machine.proceed, h.interrupted_eq, h.now_eq]
      split
      · exact ih _ h
      · split
        · exact ih _ h
        · exact h.park ⟨_, _, .signal _ hnext⟩
  | spawn target hbody _ _ ih =>
      obtain ⟨htask, hafter⟩ := h.spawn target hbody
      rw [Machine.proceed, Machine.proceed, htask]
      exact ih _ hafter
  | join task hnext ih =>
      rw [Machine.proceed, Machine.proceed, h.ending?_eq]
      split
      · exact ih _ h
      · exact h.park ⟨_, _, .ending _ hnext⟩

/-- Alike tasks can go on at the same moments. -/
theorem wakeTime_eq (h : m.Alike same m') {task task' : Task W ι R} (htask : task.Alike same task') :
    m.wakeTime task = m'.wakeTime task' := by
  obtain ⟨id, pool, hwait⟩ := htask
  have hrunning := h.running_eq pool
  obtain ⟨-, -⟩ := h
  cases hwait with
  | permit _ =>
      unfold Machine.wakeTime
      dsimp only
      rw [hrunning]
  | moment due _ => rfl
  | signal due _ => rfl
  | ending id _ => rfl

theorem resume (h : m.Alike same m') {task task' : Task W ι R} (htask : task.Alike same task') :
    (Machine.resume task m).Alike same (Machine.resume task' m') := by
  obtain ⟨id, pool, hwait⟩ := htask
  cases hwait with
  | permit hbody => exact h.proceed hbody id pool
  | moment due hnext => exact h.proceed hnext id pool
  | signal due hnext =>
      unfold Machine.resume
      dsimp only
      rw [h.interrupted_eq]
      exact h.proceed (hnext _) id pool
  | ending task hnext =>
      unfold Machine.resume
      dsimp only
      rw [h.result?_eq]
      exact h.proceed (hnext _) id pool

/-- Alike machines take the same step, or none can go on. -/
theorem step? (h : m.Alike same m') (limit : Option Nat) :
    (m.step? limit = none ∧ m'.step? limit = none) ∨
      ∃ next next', m.step? limit = some next ∧ m'.step? limit = some next' ∧
        next.Alike same next' := by
  unfold Machine.step?
  rcases earliest_alike h.tasks fun _ _ htask => h.wakeTime_eq htask with
    ⟨hnone, hnone'⟩ | ⟨time, task, task', rest, rest', hsome, hsome', htask, hrest⟩
  · rw [hnone, hnone']
    exact Or.inl ⟨rfl, rfl⟩
  · rw [hsome, hsome']
    dsimp only
    split
    · refine Or.inr ⟨_, _, rfl, rfl, resume ?_ htask⟩
      obtain ⟨hworld, -⟩ := h
      exact ⟨hworld, hrest⟩
    · exact Or.inl ⟨rfl, rfl⟩

/-- Alike machines stay alike however long they are driven. -/
theorem drive {enough : Machine W ι R → Bool}
    (henough : ∀ {m m' : Machine W ι R}, m.Alike same m' → enough m = enough m')
    (h : m.Alike same m') (limit : Option Nat) :
    (m.drive enough limit).Alike same (m'.drive enough limit) := by
  -- The induction follows the steps of the first machine; the other one takes the same steps.
  induction m using drive.induct enough limit generalizing m' with
  | case1 m hm =>
      rw [drive_of_enough hm, drive_of_enough ((henough h).symm.trans hm)]
      exact h
  | case2 m hm next hnext ih =>
      have hmore : enough m = false := by simpa using hm
      rcases h.step? limit with ⟨hnone, -⟩ | ⟨found, next', hfound, hnext', halike⟩
      · rw [hnext] at hnone
        exact absurd hnone (by simp)
      · rw [hnext, Option.some.injEq] at hfound
        subst hfound
        rw [drive_of_step hmore hnext, drive_of_step ((henough h).symm.trans hmore) hnext']
        exact ih halike
  | case3 m hm hnone =>
      rcases h.step? limit with ⟨-, hnone'⟩ | ⟨found, _, hfound, -⟩
      · rw [drive_of_stuck hnone, drive_of_stuck hnone']
        exact h
      · rw [hnone] at hfound
        exact absurd hfound (by simp)

theorem settle (h : m.Alike same m') : m.settle.Alike same m'.settle := by
  unfold Machine.settle
  rw [h.now_eq]
  exact h.drive (fun _ => rfl) _

theorem advanceTo (h : m.Alike same m') (moment : Nat) :
    (m.advanceTo moment).Alike same (m'.advanceTo moment) := by
  have hdriven : Alike same (m.drive (fun _ => false) (some moment))
      (m'.drive (fun _ => false) (some moment)) := h.drive (fun _ => rfl) _
  unfold Machine.advanceTo
  dsimp only
  rw [hdriven.now_eq]
  exact hdriven.withNow _

theorem awaitEnd (h : m.Alike same m') (id : Nat) :
    (m.awaitEnd id).Alike same (m'.awaitEnd id) :=
  h.drive (fun h => by rw [h.ending?_eq]) none

/-- A process in the foreground has the same result on alike machines, and leaves alike machines
behind. -/
theorem run {p q : Process W ι R} (hp : p.Alike same q) (h : m.Alike same m') :
    (Machine.run p m).1 = (Machine.run q m').1 ∧
      (Machine.run p m).2.Alike same (Machine.run q m').2 := by
  induction hp generalizing m m' with
  | done result => exact ⟨rfl, h⟩
  | crash => exact ⟨rfl, h⟩
  | act heffect _ ih =>
      exact ih _ _ h.world (h.act heffect)
  | sleep ms _ ih =>
      rw [Machine.run, Machine.run, h.now_eq]
      split
      · exact ih h
      · exact ih (h.advanceTo _)
  | pause ms _ ih =>
      rw [Machine.run, Machine.run, h.interrupted_eq, h.interrupt_eq, h.now_eq]
      split
      · exact ih _ h
      · split
        · exact ih _ h
        · dsimp only
          rw [(h.advanceTo _).interrupted_eq]
          exact ih _ (h.advanceTo _)
  | spawn pool hbody _ _ ih =>
      obtain ⟨htask, hafter⟩ := h.spawn pool hbody
      rw [Machine.run, Machine.run, htask]
      exact ih _ hafter
  | join task _ ih =>
      rw [Machine.run, Machine.run, (h.awaitEnd task).result?_eq]
      exact ih _ (h.awaitEnd task)

/-! ## Shutting down -/

theorem allIdle_eq (h : m.Alike same m') (pools : List ι) :
    m.allIdle pools = m'.allIdle pools := by
  unfold Machine.allIdle
  congr 1
  funext pool
  rw [h.inFlight_eq]

theorem awaitIdle (h : m.Alike same m') (pools : List ι) (ms : Nat) :
    (m.awaitIdle pools ms).Alike same (m'.awaitIdle pools ms) := by
  have hdriven := h.drive (fun h => h.allIdle_eq pools) (some (m.now + ms))
  unfold Machine.awaitIdle
  dsimp only
  rw [← h.now_eq, hdriven.allIdle_eq]
  split
  · exact hdriven
  · exact hdriven.withNow _

theorem cancel (h : m.Alike same m') (pool : ι) :
    (m.cancel pool).Alike same (m'.cancel pool) := by
  have hcancelled : ((m.tasksOf pool).map fun task => (task.id, (Ending.cancelled : Ending R))) =
      (m'.tasksOf pool).map fun task => (task.id, Ending.cancelled) := by
    refine Task.map_alike (h.tasksOf pool) ?_
    rintro _ _ ⟨id, other, -⟩
    rfl
  have hkept := Task.filter_alike h.tasks fun other => other ≠ pool
  unfold Machine.cancel
  refine updatePool ?_ pool _
  rw [hcancelled]
  obtain ⟨hworld, -⟩ := h
  exact ⟨hworld, hkept⟩

omit [DecidableEq ι] in
theorem foldl {change : Machine W ι R → ι → Machine W ι R}
    (hchange : ∀ {m m' : Machine W ι R} (pool : ι), m.Alike same m' →
      (change m pool).Alike same (change m' pool)) (h : m.Alike same m') (pools : List ι) :
    (pools.foldl change m).Alike same (pools.foldl change m') := by
  induction pools generalizing m m' with
  | nil => exact h
  | cons pool pools ih => exact ih (hchange pool h)

theorem shutdown (h : m.Alike same m') (pools : List ι) (timeout : Nat) :
    (m.shutdown pools timeout).2.Alike same (m'.shutdown pools timeout).2 := by
  have hclosed : (pools.foldl close m).Alike same (pools.foldl close m') :=
    h.foldl (fun pool h => h.updatePool pool _) pools
  have hwaited := hclosed.awaitIdle pools timeout
  unfold Machine.shutdown
  dsimp only
  rw [hwaited.allIdle_eq]
  split
  · exact hwaited
  · have hlast := hwaited.raiseInterrupt.awaitIdle pools grace
    have hlate : ∀ pool, ((pools.foldl close m).awaitIdle pools timeout).inFlight pool =
        ((pools.foldl close m').awaitIdle pools timeout).inFlight pool := hwaited.inFlight_eq
    simp only [hlate]
    exact hlast.foldl (fun pool h => h.cancel pool) _

end Machine.Alike

end MenuActions.Schedule
