import MenuActions.Proofs.Schedule.Drive
import MenuActions.Schedule.Shutdown

/-!
# Interleavings

What can happen on a machine, one thing after another and in any order: a task that can go on does so,
time passes, the interrupt signal is turned on, pools are closed, tasks are cancelled, and from outside
tasks are started and the world is changed.  Nothing says which of several tasks goes on first, nor how
late it notices that its moment has come; only the permits of a pool are given in turn.

What a task may do while it goes on is said once, in `rests_proceed`; it does all of it before anything
else happens.  The operations of a machine are interleavings of this kind: `turns_drive` and
`turns_shutdown`.
-/

namespace MenuActions.Schedule

/-- What stands beside a member of a list. -/
theorem sublist_of_eq {α : Type} {xs before after : List α} {x : α}
    (h : xs = before ++ x :: after) : (before ++ after).Sublist xs := by
  rw [h]
  exact List.Sublist.append_left (List.sublist_cons_self x after) before

/-- One thing that happens on a machine. -/
inductive Event (W ι R : Type)
  /-- A task goes on until it waits again or ends. -/
  | goesOn (task : Task W ι R)
  /-- Time passes up to a moment. -/
  | passes (moment : Nat)
  /-- The interrupt signal is turned on. -/
  | interrupts
  /-- A pool is closed. -/
  | closes (pool : ι)
  /-- A single task is cancelled by whoever holds its handle. -/
  | drops (task : Task W ι R)
  /-- All tasks of a pool are cancelled. -/
  | clears (pool : ι)
  /-- A task is started from outside. -/
  | starts (pool : ι) (body : Process W ι R)
  /-- The world is changed from outside. -/
  | changes (world : W)

namespace Machine

variable {W ι R : Type}

/-- The machine after tasks have been started and the world has changed. -/
def enlist (m : Machine W ι R) (world : W) (started : List (Task W ι R)) : Machine W ι R :=
  { m with world := world, tasks := m.tasks ++ started, nextId := m.nextId + started.length }

/-- Tasks that a machine may start: they wait for permits of open pools, under the numbers that come
next. -/
structure Startable (m : Machine W ι R) (started : List (Task W ι R)) : Prop where
  numbered : started.map Task.id = List.range' m.nextId started.length
  queued : ∀ task ∈ started, task.wait.queued = true
  accepted : ∀ task ∈ started, (m.pools task.pool).closed = false

theorem Startable.nil (m : Machine W ι R) : m.Startable [] :=
  ⟨rfl, fun _ h => absurd h List.not_mem_nil, fun _ h => absurd h List.not_mem_nil⟩

theorem Startable.single {m : Machine W ι R} {pool : ι} (hopen : (m.pools pool).closed = false)
    (body : Process W ι R) : m.Startable [⟨m.nextId, pool, .permit body⟩] := by
  refine ⟨rfl, fun task htask => ?_, fun task htask => ?_⟩
  · rw [List.mem_singleton.mp htask]
    rfl
  · rw [List.mem_singleton.mp htask]
    exact hopen

theorem Startable.append {m : Machine W ι R} {world : W} {started more : List (Task W ι R)}
    (h : m.Startable started) (hmore : (m.enlist world started).Startable more) :
    m.Startable (started ++ more) := by
  refine ⟨?_, fun task htask => ?_, fun task htask => ?_⟩
  · rw [List.map_append, List.length_append, h.numbered, hmore.numbered, ← List.range'_append_1]
    rfl
  · rcases List.mem_append.mp htask with hfirst | hlast
    · exact h.queued task hfirst
    · exact hmore.queued task hlast
  · rcases List.mem_append.mp htask with hfirst | hlast
    · exact h.accepted task hfirst
    · exact hmore.accepted task hlast

theorem Startable.nextId_le {m : Machine W ι R} {started : List (Task W ι R)}
    (h : m.Startable started) {task : Task W ι R} (htask : task ∈ started) : m.nextId ≤ task.id := by
  have hid : task.id ∈ List.range' m.nextId started.length :=
    h.numbered ▸ List.mem_map_of_mem htask
  exact (List.mem_range'_1.mp hid).1

theorem enlist_nil (m : Machine W ι R) (world : W) :
    m.enlist world [] = { m with world := world } := by
  simp [enlist]

theorem enlist_enlist (m : Machine W ι R) (world world' : W) (started more : List (Task W ι R)) :
    (m.enlist world started).enlist world' more = m.enlist world' (started ++ more) := by
  simp [enlist, Nat.add_assoc]

/-- A task that is started from outside, unless its pool is closed. -/
theorem exists_spawn_eq (m : Machine W ι R) (pool : ι) (body : Process W ι R) :
    ∃ started, m.Startable started ∧ (m.spawn pool body).2 = m.enlist m.world started := by
  unfold spawn
  split
  · exact ⟨[], .nil m, (enlist_nil m m.world).symm⟩
  · rename_i hopen
    exact ⟨[⟨m.nextId, pool, .permit body⟩], .single (by simpa using hopen) body, rfl⟩

variable [DecidableEq ι]

/-- The machine after a task has ended and left its entry in the table of its pool. -/
def lose (m : Machine W ι R) (id : Nat) (pool : ι) (ending : Ending R) : Machine W ι R :=
  (m.finish id ending).updatePool pool fun p => { p with leftover := p.leftover + 1 }

/-- What a change leaves alone in a pool, it leaves alone in all of them. -/
theorem updatePool_keeps {α : Type} (field : Pool → α) {f : Pool → Pool}
    (hf : ∀ p, field (f p) = field p) (m : Machine W ι R) (pool other : ι) :
    field ((m.updatePool pool f).pools other) = field (m.pools other) := by
  show field (if other = pool then f (m.pools other) else m.pools other) = _
  split
  · exact hf _
  · rfl

@[simp]
theorem permits_lose (m : Machine W ι R) (id : Nat) (pool other : ι) (ending : Ending R) :
    ((m.lose id pool ending).pools other).permits = (m.pools other).permits :=
  updatePool_keeps (f := fun p => { p with leftover := p.leftover + 1 }) Pool.permits
    (fun _ => rfl) (m.finish id ending) pool other

@[simp]
theorem closed_lose (m : Machine W ι R) (id : Nat) (pool other : ι) (ending : Ending R) :
    ((m.lose id pool ending).pools other).closed = (m.pools other).closed :=
  updatePool_keeps (f := fun p => { p with leftover := p.leftover + 1 }) Pool.closed
    (fun _ => rfl) (m.finish id ending) pool other

/-- What a task that has gone on comes to: it waits again, though not for a permit, or it ends. -/
inductive Rests (id : Nat) (pool : ι) (m : Machine W ι R) : Machine W ι R → Prop
  | waits (wait : Wait W ι R) : wait.queued = false → Rests id pool m (m.park ⟨id, pool, wait⟩)
  | finishes (result : R) : Rests id pool m (m.finish id (.finished result))
  | breaks : Rests id pool m (m.lose id pool .panicked)

/-- A task that goes on starts tasks, changes the world, and comes to rest. -/
theorem rests_proceed (id : Nat) (pool : ι) (p : Process W ι R) :
    ∀ m : Machine W ι R, ∃ world started,
      m.Startable started ∧ (m.enlist world started).Rests id pool (proceed id pool p m) := by
  -- Every case that does not go on starts nothing and leaves the world as it is.
  have hrest : ∀ {m m' : Machine W ι R}, m.Rests id pool m' → ∃ world started,
      m.Startable started ∧ (m.enlist world started).Rests id pool m' := by
    intro m m' h
    refine ⟨m.world, [], .nil m, ?_⟩
    rw [enlist_nil]
    exact h
  induction p with
  | done result => exact fun m => hrest (.finishes result)
  | crash => exact fun m => hrest .breaks
  | act effect next ih =>
      intro m
      obtain ⟨world, started, hstarted, h⟩ := ih m.world { m with world := effect m.now m.world }
      exact ⟨world, started, ⟨hstarted.numbered, hstarted.queued, hstarted.accepted⟩, h⟩
  | sleep ms next ih =>
      intro m
      unfold proceed
      split
      · exact ih m
      · exact hrest (.waits _ rfl)
  | pause ms next ih =>
      intro m
      unfold proceed
      split
      · exact ih true m
      · split
        · exact ih false m
        · exact hrest (.waits _ rfl)
  | spawn target body next _ ih =>
      intro m
      unfold proceed
      obtain ⟨world, started, hstarted, h⟩ := ih (m.spawn target body).1 (m.spawn target body).2
      obtain ⟨first, hfirst, hspawn⟩ := exists_spawn_eq m target body
      rw [hspawn] at hstarted h ⊢
      rw [enlist_enlist] at h
      exact ⟨world, _, hfirst.append hstarted, h⟩
  | join target next ih =>
      intro m
      unfold proceed
      split
      · exact ih _ m
      · exact hrest (.waits _ rfl)

/-- A task that waits comes to rest again after it has gone on. -/
theorem rests_resume (task : Task W ι R) (m : Machine W ι R) :
    ∃ world started, m.Startable started ∧
      (m.enlist world started).Rests task.id task.pool (resume task m) := by
  unfold resume
  split
  all_goals exact rests_proceed _ _ _ m

/-- What a task that was not listed has done by going on: time stands still, the pools have their
permits and are open or closed as before, and behind the other tasks stand those that it has started
and, if it waits again, itself. -/
structure WentOn (task : Task W ι R) (m m' : Machine W ι R) : Prop where
  now : m'.now = m.now
  permits : ∀ pool, (m'.pools pool).permits = (m.pools pool).permits
  closed : ∀ pool, (m'.pools pool).closed = (m.pools pool).closed
  tasks : ∃ started rested, m.Startable started ∧ m'.nextId = m.nextId + started.length ∧
    m'.tasks = m.tasks ++ (started ++ rested) ∧ rested.length ≤ 1 ∧
    ∀ t ∈ rested, t.id = task.id ∧ t.pool = task.pool ∧ t.wait.queued = false

theorem wentOn_resume (task : Task W ι R) (m : Machine W ι R) : WentOn task m (resume task m) := by
  obtain ⟨world, started, hstarted, hrests⟩ := rests_resume task m
  generalize resume task m = m' at hrests
  cases hrests with
  | waits wait hwait =>
      refine ⟨rfl, fun _ => rfl, fun _ => rfl, started, [⟨task.id, task.pool, wait⟩], hstarted, rfl,
        List.append_assoc _ _ _, Nat.le_refl 1, fun t ht => ?_⟩
      rw [List.mem_singleton.mp ht]
      exact ⟨rfl, rfl, hwait⟩
  | finishes result =>
      refine ⟨rfl, fun _ => rfl, fun _ => rfl, started, [], hstarted, rfl, ?_, Nat.zero_le 1,
        fun t ht => absurd ht List.not_mem_nil⟩
      rw [List.append_nil]
      rfl
  | breaks =>
      refine ⟨rfl, fun pool => permits_lose _ _ _ _ _, fun pool => closed_lose _ _ _ _ _, started, [],
        hstarted, rfl, ?_, Nat.zero_le 1, fun t ht => absurd ht List.not_mem_nil⟩
      rw [List.append_nil]
      rfl

/-- What happens on a machine of itself, or when its pools are controlled. -/
inductive Turn (m : Machine W ι R) : Event W ι R → Machine W ι R → Prop
  /-- A task goes on when what it waits for has come.  Of the tasks that wait for a permit of one pool
  it is the one that has waited longest. -/
  | goesOn {task : Task W ι R} {before after : List (Task W ι R)} :
      m.tasks = before ++ task :: after → m.wakeTime task = some m.now →
      (task.wait.queued = true →
        ∀ other ∈ before, other.pool = task.pool → other.wait.queued = false) →
      Turn m (.goesOn task) (resume task { m with tasks := before ++ after })
  | passes {moment : Nat} : m.now ≤ moment → Turn m (.passes moment) { m with now := moment }
  | interrupts : Turn m .interrupts m.raiseInterrupt
  | closes (pool : ι) : Turn m (.closes pool) (m.close pool)
  | drops {task : Task W ι R} {before after : List (Task W ι R)} :
      m.tasks = before ++ task :: after →
      Turn m (.drops task)
        (lose { m with tasks := before ++ after } task.id task.pool .cancelled)
  | clears (pool : ι) : Turn m (.clears pool) (m.cancel pool)

/-- What happens on a machine, also from outside. -/
inductive Step (m : Machine W ι R) : Event W ι R → Machine W ι R → Prop
  | turn {event : Event W ι R} {m' : Machine W ι R} : m.Turn event m' → Step m event m'
  | starts (pool : ι) (body : Process W ι R) :
      Step m (.starts pool body) (m.spawn pool body).2
  | changes (world : W) : Step m (.changes world) { m with world := world }

omit [DecidableEq ι] in
/-- A sequence of events that leads from one machine to another. -/
inductive Trace (happens : Machine W ι R → Event W ι R → Machine W ι R → Prop)
    (m : Machine W ι R) : List (Event W ι R) → Machine W ι R → Prop
  | nil : Trace happens m [] m
  | snoc {events : List (Event W ι R)} {event : Event W ι R} {m' m'' : Machine W ι R} :
      Trace happens m events m' → happens m' event m'' → Trace happens m (events ++ [event]) m''

/-! ## Operations as interleavings -/

section Operations

variable {happens : Machine W ι R → Event W ι R → Machine W ι R → Prop}
  {m m' m'' : Machine W ι R} {events more : List (Event W ι R)} {event : Event W ι R}

omit [DecidableEq ι] in
theorem Trace.single (h : happens m event m') : Trace happens m [event] m' :=
  .snoc .nil h

omit [DecidableEq ι] in
theorem Trace.append (h : Trace happens m events m') (h' : Trace happens m' more m'') :
    Trace happens m (events ++ more) m'' := by
  induction h' with
  | nil =>
      rw [List.append_nil]
      exact h
  | snoc _ hlast ih =>
      rw [← List.append_assoc]
      exact ih.snoc hlast

theorem Trace.step (h : Trace Turn m events m') : Trace Step m events m' := by
  induction h with
  | nil => exact .nil
  | snoc _ hlast ih => exact ih.snoc (.turn hlast)

/-- Some events, of which each is of the machine itself, lead from one machine to another. -/
def Turns (m m' : Machine W ι R) : Prop :=
  ∃ events, Trace Turn m events m'

namespace Turns

theorem refl (m : Machine W ι R) : m.Turns m :=
  ⟨[], .nil⟩

theorem single (h : m.Turn event m') : m.Turns m' :=
  ⟨[event], .single h⟩

theorem trans (h : m.Turns m') (h' : m'.Turns m'') : m.Turns m'' := by
  obtain ⟨events, hevents⟩ := h
  obtain ⟨more, hmore⟩ := h'
  exact ⟨events ++ more, hevents.append hmore⟩

/-- What turns do in turn for every member of a list, they do for the list. -/
theorem foldl {f : Machine W ι R → ι → Machine W ι R}
    (hf : ∀ (x : Machine W ι R) (i : ι), x.Turns (f x i)) (pools : List ι) (m : Machine W ι R) :
    m.Turns (pools.foldl f m) := by
  induction pools generalizing m with
  | nil => exact .refl m
  | cons i pools ih => exact (hf m i).trans (ih (f m i))

end Turns

omit [DecidableEq ι] in
/-- The member that is found stands in its place, and those before it have no time as early. -/
theorem split_of_earliest {α : Type} {time : α → Option Nat} :
    ∀ {xs : List α} {t : Nat} {x : α} {rest : List α}, earliest time xs = some (t, x, rest) →
      ∃ before after, xs = before ++ x :: after ∧ rest = before ++ after ∧
        ∀ y ∈ before, time y ≠ some t
  | [], _, _, _, h => by simp [earliest] at h
  | y :: ys, t, x, rest, h => by
      unfold earliest at h
      split at h
      · exact absurd h (by simp)
      · rename_i htime hrest
        simp only [Option.some.injEq, Prod.mk.injEq] at h
        obtain ⟨rfl, rfl, rfl⟩ := h
        obtain ⟨before, after, rfl, rfl, hbefore⟩ := split_of_earliest hrest
        refine ⟨y :: before, after, rfl, rfl, fun z hz => ?_⟩
        rcases List.mem_cons.mp hz with rfl | hz
        · rw [htime]
          exact Option.some_ne_none _ ∘ Eq.symm
        · exact hbefore z hz
      · simp only [Option.some.injEq, Prod.mk.injEq] at h
        obtain ⟨rfl, rfl, rfl⟩ := h
        exact ⟨[], _, rfl, rfl, fun z hz => absurd hz List.not_mem_nil⟩
      · rename_i htime hrest
        split at h
        · simp only [Option.some.injEq, Prod.mk.injEq] at h
          obtain ⟨rfl, rfl, rfl⟩ := h
          exact ⟨[], _, rfl, rfl, fun z hz => absurd hz List.not_mem_nil⟩
        · rename_i hlater
          simp only [Option.some.injEq, Prod.mk.injEq] at h
          obtain ⟨rfl, rfl, rfl⟩ := h
          obtain ⟨before, after, rfl, rfl, hbefore⟩ := split_of_earliest hrest
          refine ⟨y :: before, after, rfl, rfl, fun z hz => ?_⟩
          rcases List.mem_cons.mp hz with rfl | hz
          · rw [htime]
            intro hsame
            have := Option.some.inj hsame
            omega
          · exact hbefore z hz

/-- When the moment of a task has come, the task can go on at once. -/
theorem wakeTime_of_passes {task : Task W ι R} {moment : Nat}
    (h : m.wakeTime task = some moment) :
    wakeTime { m with now := moment } task = some moment := by
  have hnow := now_le_wakeTime h
  unfold wakeTime at h ⊢
  split
  · rename_i body hwait
    simp only [hwait] at h
    split at h
    · rename_i hroom
      exact if_pos hroom
    · exact absurd h (by simp)
  · rename_i due next hwait
    simp only [hwait, Option.some.injEq] at h
    simp only [Option.some.injEq]
    omega
  · rename_i due next hwait
    simp only [hwait] at h
    dsimp only
    split
    · rename_i since hsince
      simp only [hsince, Option.some.injEq] at h
      simp only [Option.some.injEq]
      omega
    · rename_i hsince
      simp only [hsince, Option.some.injEq] at h
      simp only [Option.some.injEq]
      omega
  · rename_i awaited next hwait
    simp only [hwait] at h
    obtain ⟨ending, hending, _⟩ := Option.map_eq_some_iff.mp h
    show ((m.ending? awaited).map fun _ => moment) = some moment
    rw [hending]
    rfl

/-- A task that waits for a permit can go on when its pool has one. -/
theorem wakeTime_of_queued {task : Task W ι R} (h : task.wait.queued = true) :
    m.wakeTime task =
      if m.running task.pool < (m.pools task.pool).permits then some m.now else none := by
  unfold wakeTime
  cases hwait : task.wait with
  | permit body => rfl
  | moment due next => exact absurd (hwait ▸ h) (by simp [Wait.queued])
  | signal due next => exact absurd (hwait ▸ h) (by simp [Wait.queued])
  | ending awaited next => exact absurd (hwait ▸ h) (by simp [Wait.queued])

/-- The task that is found goes on when its moment has come. -/
theorem goesOn_of_earliest {moment : Nat} {task : Task W ι R} {rest : List (Task W ι R)}
    (h : earliest m.wakeTime m.tasks = some (moment, task, rest)) :
    Turn { m with now := moment } (.goesOn task)
      (resume task { m with now := moment, tasks := rest }) := by
  have htime := time_of_earliest h
  obtain ⟨before, after, htasks, rfl, hbefore⟩ := split_of_earliest h
  refine .goesOn htasks (wakeTime_of_passes htime) fun hqueued other hother hpool => ?_
  -- A task before it that waits for a permit of the same pool would have been found first.
  cases hwaits : other.wait.queued with
  | false => rfl
  | true =>
      have hsame : m.wakeTime other = m.wakeTime task := by
        rw [wakeTime_of_queued hwaits, wakeTime_of_queued hqueued, hpool]
      exact absurd (hsame.trans htime) (hbefore other hother)

/-- A step lets time pass and then one task go on. -/
theorem turns_step {limit : Option Nat} (h : m.step? limit = some m') : m.Turns m' := by
  unfold step? at h
  split at h
  · exact absurd h (by simp)
  · rename_i moment task rest hearliest
    split at h
    · obtain rfl := Option.some.inj h
      have hpasses : m.Turns { m with now := moment } :=
        .single (.passes (now_le_wakeTime (time_of_earliest hearliest)))
      exact hpasses.trans (.single (goesOn_of_earliest hearliest))
    · exact absurd h (by simp)

theorem turns_drive (enough : Machine W ι R → Bool) (limit : Option Nat) (m : Machine W ι R) :
    m.Turns (m.drive enough limit) :=
  (drive_induction (fun _ _ hx hstep => hx.trans (turns_step hstep)) (.refl m)).1

theorem turns_advanceTo (moment : Nat) (m : Machine W ι R) : m.Turns (m.advanceTo moment) :=
  (turns_drive _ _ m).trans (.single (.passes (Nat.le_max_left _ _)))

/-- A machine that is driven up to a moment does not go beyond it. -/
theorem now_drive_le {enough : Machine W ι R → Bool} {moment : Nat} (h : m.now ≤ moment) :
    (m.drive enough (some moment)).now ≤ moment := by
  refine (drive_induction (P := fun x => x.now ≤ moment) ?_ h).1
  intro x x' _ hstep
  unfold step? at hstep
  split at hstep
  · exact absurd hstep (by simp)
  · rename_i due task rest _
    split at hstep
    · rename_i hdue
      obtain rfl := Option.some.inj hstep
      rw [(wentOn_resume task _).now]
      simpa using hdue
    · exact absurd hstep (by simp)

theorem turns_awaitIdle (pools : List ι) (ms : Nat) (m : Machine W ι R) :
    m.Turns (m.awaitIdle pools ms) := by
  have hdriven := turns_drive (allIdle pools) (some (m.now + ms)) m
  have hnow : (m.drive (allIdle pools) (some (m.now + ms))).now ≤ m.now + ms :=
    now_drive_le (Nat.le_add_right _ _)
  unfold awaitIdle
  dsimp only
  split
  · exact hdriven
  · exact hdriven.trans (.single (.passes hnow))

/-- Of a shutdown the pools are closed first; what follows are turns too. -/
theorem turns_shutdown (pools : List ι) (timeout : Nat) (m : Machine W ι R) :
    (pools.foldl close m).Turns (m.shutdown pools timeout).2 := by
  have hwaited := turns_awaitIdle pools timeout (pools.foldl close m)
  unfold shutdown
  dsimp only
  split
  · exact hwaited
  · have hraised := hwaited.trans (.single .interrupts)
    have hlast := hraised.trans (turns_awaitIdle pools grace _)
    exact hlast.trans (Turns.foldl (fun _ i => .single (.clears i)) _ _)

end Operations

end Machine

end MenuActions.Schedule
