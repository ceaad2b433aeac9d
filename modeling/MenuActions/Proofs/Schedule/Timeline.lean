import MenuActions.Proofs.Schedule.Crowd
import MenuActions.Proofs.Schedule.Punctual
import MenuActions.Proofs.Schedule.Sightings

/-!
# Timelines

A crowd on a punctual machine, together with a log of what is seen of its tasks and when.  On a punctual
machine time passes only up to a moment at which a task can go on, and tasks are cancelled only by
clearing a closed pool.

`Timeline.kept` reads the log for one task.  From the moment of its permit on, what it has done is a timed
course of its body; while it has not ended it waits where this course has led it, and in front of the
moment that it waits for.  What a single task does by going on is in `Kept.goOn`, and the induction is over
the timeline.
-/

namespace MenuActions.Schedule

variable {W ι R : Type}

open Sighting

/-- A moment is not past the one that a task waits for. -/
def Wait.Ahead (now : Nat) : Wait W ι R → Prop
  | .permit _ => True
  | .moment due _ => now ≤ due
  | .signal due _ => now ≤ due
  | .ending _ _ => True

theorem Process.HaltsAt.ahead {now : Nat} {q : Process W ι R} {wait : Wait W ι R}
    (h : q.HaltsAt now wait) : wait.Ahead now := by
  cases h with
  | sleep ms next _ => exact Nat.le_add_right now ms
  | pause ms next => exact Nat.le_add_right now ms
  | join task next => trivial

/-- A moment that is not past any at which a task can go on is not past the one that it waits for. -/
theorem Wait.Ahead.passes [DecidableEq ι] {m : Machine W ι R} {task : Task W ι R} {moment : Nat}
    (h : task.wait.Ahead m.now) (hwake : ∀ due, m.wakeTime task = some due → moment ≤ due) :
    task.wait.Ahead moment := by
  obtain ⟨id, pool, wait⟩ := task
  cases wait with
  | permit body => trivial
  | moment due next => exact Nat.le_trans (hwake _ rfl) (Nat.max_le.mpr ⟨h, Nat.le_refl due⟩)
  | signal due next =>
      have hnow : m.now ≤ due := h
      have hdue : ∃ last, m.wakeTime ⟨id, pool, .signal due next⟩ = some last ∧ last ≤ due := by
        unfold Machine.wakeTime
        dsimp only
        split
        · exact ⟨_, rfl, Nat.max_le.mpr ⟨hnow, Nat.min_le_left _ _⟩⟩
        · exact ⟨_, rfl, Nat.max_le.mpr ⟨hnow, Nat.le_refl due⟩⟩
      obtain ⟨last, hlast, hle⟩ := hdue
      exact Nat.le_trans (hwake last hlast) hle
  | ending awaited next => trivial

/-! ## The log of a crowd -/

namespace Crowd

variable [DecidableEq ι]

/-- Something that happens in a crowd on a punctual machine, and what is seen of it. -/
inductive Sees (begins : Process W ι R → Prop) (changes : W → W → Prop) (c : Crowd W ι R) :
    List (Sighting W ι R) → Crowd W ι R → Prop
  | turn {event : Event W ι R} {m : Machine W ι R} : c.machine.Turn event m →
      c.machine.Punctual event → Sees begins changes c (c.machine.seen event m) ⟨m, c.callers⟩
  | begun {p : Process W ι R} : begins p → Sees begins changes c [] ⟨c.machine, p :: c.callers⟩
  | advances {p p' : Process W ι R} {before after : List (Process W ι R)} {m : Machine W ι R} :
      c.callers = before ++ p :: after → c.machine.Advances p p' m →
      Sees begins changes c (c.machine.changes m) ⟨m, before ++ p' :: after⟩
  | leaves {p : Process W ι R} {before after : List (Process W ι R)} :
      c.callers = before ++ p :: after → Sees begins changes c [] ⟨c.machine, before ++ after⟩
  | host {w : W} : changes c.machine.world w →
      Sees begins changes c [] ⟨{ c.machine with world := w }, c.callers⟩

theorem Sees.step {begins : Process W ι R → Prop} {changes : W → W → Prop} {c c' : Crowd W ι R}
    {more : List (Sighting W ι R)} (h : c.Sees begins changes more c') : c.Step begins changes c' := by
  cases h with
  | turn hturn _ => exact .turn hturn
  | begun hp => exact .begun hp
  | advances hcallers hadvances => exact .advances hcallers hadvances
  | leaves hcallers => exact .leaves hcallers
  | host hworld => exact .host hworld

/-- What comes of a crowd on a punctual machine, with the log of what is seen on the way. -/
inductive Timeline (begins : Process W ι R → Prop) (changes : W → W → Prop) (first : Crowd W ι R) :
    List (Sighting W ι R) → Crowd W ι R → Prop
  | nil : Timeline begins changes first [] first
  | snoc {log more : List (Sighting W ι R)} {c c' : Crowd W ι R} :
      Timeline begins changes first log c → Sees begins changes c more c' →
      Timeline begins changes first (log ++ more) c'

end Crowd

/-! ## The log of a task -/

/-- What has been seen of a task of a pool that has not ended, and how it waits. -/
inductive Life (pool : ι) (now : Nat) : List (Nat × Sight W ι R) → Wait W ι R → Prop
  | queued {t : Nat} (body : Process W ι R) : t ≤ now →
      Life pool now [(t, .scheduled pool body)] (.permit body)
  | going {t permitted last : Nat} {body q : Process W ι R} {trail : List (Nat × Deed W ι R)}
      {wait : Wait W ι R} : t ≤ permitted → body.Timed permitted trail last q → q.HaltsAt last wait →
      last ≤ now → wait.Ahead now →
      Life pool now ((t, .scheduled pool body) :: (permitted, .permitted) :: seenDeeds trail) wait

/-- What has been seen of a task of a pool that has ended, and how. -/
inductive Ends (pool : ι) : List (Nat × Sight W ι R) → Ending R → Prop
  | finishes {t permitted last : Nat} {body : Process W ι R} {trail : List (Nat × Deed W ι R)}
      {result : R} : t ≤ permitted → body.Timed permitted trail last (.done result) →
      Ends pool ((t, .scheduled pool body) :: (permitted, .permitted) :: seenDeeds trail ++
        [(last, .ended (.finished result))]) (.finished result)
  | breaks {t permitted last : Nat} {body : Process W ι R} {trail : List (Nat × Deed W ι R)} :
      t ≤ permitted → body.Timed permitted trail last .crash →
      Ends pool ((t, .scheduled pool body) :: (permitted, .permitted) :: seenDeeds trail ++
        [(last, .ended .panicked)]) .panicked
  | cancelled {now : Nat} {sights : List (Nat × Sight W ι R)} {wait : Wait W ι R} :
      Life pool now sights wait → Ends pool (sights ++ [(now, .ended .cancelled)]) .cancelled

theorem Life.later {pool : ι} {now later : Nat} {sights : List (Nat × Sight W ι R)} {wait : Wait W ι R}
    (h : Life pool now sights wait) (hle : now ≤ later) (hahead : wait.Ahead later) :
    Life pool later sights wait := by
  cases h with
  | queued body ht => exact .queued body (Nat.le_trans ht hle)
  | going ht htimed hhalts hlast _ => exact .going ht htimed hhalts (Nat.le_trans hlast hle) hahead

theorem Life.ahead {pool : ι} {now : Nat} {sights : List (Nat × Sight W ι R)} {wait : Wait W ι R}
    (h : Life pool now sights wait) : wait.Ahead now := by
  cases h with
  | queued body ht => trivial
  | going _ _ _ _ hahead => exact hahead

/-- What is seen first of a task is that it is started, and this is seen once. -/
def StartsWith (pool : ι) (sights : List (Nat × Sight W ι R)) : Prop :=
  ∃ t body rest, sights = (t, .scheduled pool body) :: rest ∧
    ∀ moment other body', (moment, .scheduled other body') ∉ rest

theorem not_scheduled_of_seenDeeds {trail : List (Nat × Deed W ι R)} {moment permitted : Nat}
    {pool : ι} {body : Process W ι R} :
    (moment, .scheduled pool body) ∉ (permitted, .permitted) :: seenDeeds trail := by
  intro hmem
  rcases List.mem_cons.mp hmem with hfirst | hdeed
  · exact absurd hfirst (by simp)
  · obtain ⟨entry, -, hentry⟩ := List.mem_map.mp hdeed
    exact absurd hentry (by simp)

theorem StartsWith.concat {pool : ι} {sights : List (Nat × Sight W ι R)} {now : Nat}
    {ending : Ending R} (h : StartsWith pool sights) :
    StartsWith pool (sights ++ [(now, .ended ending)]) := by
  obtain ⟨t, body, rest, rfl, hrest⟩ := h
  refine ⟨t, body, rest ++ [(now, .ended ending)], rfl, fun moment other body' hmem => ?_⟩
  rcases List.mem_append.mp hmem with hold | hlast
  · exact hrest moment other body' hold
  · exact absurd (List.mem_singleton.mp hlast) (by simp)

theorem Life.startsWith {pool : ι} {now : Nat} {sights : List (Nat × Sight W ι R)} {wait : Wait W ι R}
    (h : Life pool now sights wait) : StartsWith pool sights := by
  cases h with
  | queued body _ => exact ⟨_, body, [], rfl, fun _ _ _ => List.not_mem_nil⟩
  | going _ _ _ _ _ => exact ⟨_, _, _, rfl, fun _ _ _ => not_scheduled_of_seenDeeds⟩

theorem Ends.startsWith {pool : ι} {sights : List (Nat × Sight W ι R)} {ending : Ending R}
    (h : Ends pool sights ending) : StartsWith pool sights := by
  cases h with
  | finishes _ _ => exact .concat ⟨_, _, _, rfl, fun _ _ _ => not_scheduled_of_seenDeeds⟩
  | breaks _ _ => exact .concat ⟨_, _, _, rfl, fun _ _ _ => not_scheduled_of_seenDeeds⟩
  | cancelled h => exact .concat h.startsWith

/-- Of a task that waits for its permit only its start has been seen. -/
theorem Life.eq_of_queued {pool : ι} {now : Nat} {sights : List (Nat × Sight W ι R)} {wait : Wait W ι R}
    (h : Life pool now sights wait) (hqueued : wait.queued = true) :
    ∃ t body, sights = [(t, .scheduled pool body)] := by
  cases h with
  | queued body _ => exact ⟨_, body, rfl⟩
  | going _ _ hhalts _ _ => exact absurd (hqueued.symm.trans hhalts.queued) (by simp)

/-- A task of which only its start has been seen waits for its permit. -/
theorem Life.queued_of_length {pool : ι} {now : Nat} {sights : List (Nat × Sight W ι R)}
    {wait : Wait W ι R} (h : Life pool now sights wait) (hlength : sights.length = 1) :
    wait.queued = true := by
  cases h with
  | queued body _ => rfl
  | going _ _ _ _ _ => exact absurd hlength (by simp)

theorem Ends.one_lt_length {pool : ι} {sights : List (Nat × Sight W ι R)} {ending : Ending R}
    (h : Ends pool sights ending) : 1 < sights.length := by
  cases h with
  | finishes _ _ => simp
  | breaks _ _ => simp
  | cancelled hlife =>
      obtain ⟨t, body, rest, rfl, -⟩ := hlife.startsWith
      simp

/-- It is known from any of its sightings as started which pool and which body a task has. -/
theorem StartsWith.eq_of_mem {pool other : ι} {sights : List (Nat × Sight W ι R)} {t : Nat}
    {body : Process W ι R} (h : StartsWith pool sights) (hmem : (t, .scheduled other body) ∈ sights) :
    pool = other ∧ ∃ rest, sights = (t, .scheduled other body) :: rest := by
  obtain ⟨t', body', rest, rfl, hrest⟩ := h
  have hfirst := (List.mem_cons.mp hmem).resolve_right (hrest t other body)
  simp only [Prod.mk.injEq, Sight.scheduled.injEq] at hfirst
  obtain ⟨rfl, rfl, rfl⟩ := hfirst
  exact ⟨rfl, rest, rfl⟩

variable [DecidableEq ι]

/-- A task that goes on obtains its permit or has obtained it before, and follows the course of its body
up to the present moment. -/
theorem Life.goesOn {m : Machine W ι R} {task : Task W ι R} {sights : List (Nat × Sight W ι R)}
    (h : Life task.pool m.now sights task.wait) (hready : m.wakeTime task = some m.now)
    (tasks : List (Task W ι R)) :
    let others : Machine W ι R := { m with tasks := tasks }
    ∃ t permitted body trail q world started,
      sights ++ of task.id (m.going task) =
        (t, .scheduled task.pool body) :: (permitted, .permitted) :: seenDeeds trail ∧
      t ≤ permitted ∧ permitted ≤ m.now ∧ body.Timed permitted trail m.now q ∧
      others.Startable started ∧
      (others.enlist world started).ComesTo task.id task.pool q (Machine.resume task others) := by
  intro others
  rw [Machine.of_going, ← Machine.deedsOf_withTasks task m tasks]
  obtain ⟨id, pool, wait⟩ := task
  cases h with
  | @queued t body ht =>
      obtain ⟨q, world, started, htimed, hstarted, hcomes⟩ :=
        Machine.comesTo_proceed id pool body others
      exact ⟨t, m.now, body, _, q, world, started, rfl, ht, Nat.le_refl _, htimed, hstarted, hcomes⟩
  | @going t permitted last body p trail _ ht htimed hhalts hlast hahead =>
      -- The moment of a sleep has come and is not past, so it is this one.
      have hmoment : ∀ due next, wait = .moment due next → due = others.now := by
        rintro due next rfl
        have hdue : max m.now due = m.now := Option.some.inj hready
        exact Nat.le_antisymm (hdue ▸ Nat.le_max_right _ _) hahead
      have hsignal : ∀ due next, wait = .signal due next → others.now ≤ due := by
        rintro due next rfl
        exact hahead
      obtain ⟨q, world, started, hmore, hstarted, hcomes⟩ :=
        Machine.comesTo_resume (m := others) hhalts hlast hmoment hsignal
      refine ⟨t, permitted, body, _, q, world, started, ?_, ht, Nat.le_trans htimed.le hlast,
        htimed.trans hmore, hstarted, hcomes⟩
      rw [hhalts.queued]
      simp [seenDeeds, others]

omit [DecidableEq ι]

/-- A log tells of every task of a machine what has been seen of it. -/
structure Kept (log : List (Sighting W ι R)) (m : Machine W ι R) : Prop where
  accounted : m.Accounted []
  alive : ∀ task ∈ m.tasks, Life task.pool m.now (of task.id log) task.wait
  ended : ∀ entry ∈ m.ended, ∃ pool, Ends pool (of entry.1 log) entry.2 ∧
    (entry.2 = .cancelled → (m.pools pool).closed = true)
  fresh : ∀ id, m.nextId ≤ id → of id log = []

namespace Kept

variable {log own : List (Sighting W ι R)} {m m' : Machine W ι R}
  {rest started rested : List (Task W ι R)} {gone : List (Nat × Ending R)}

/-- The log is kept when what is added tells of the task that has gone on, and of those that have come
or ended. -/
theorem shift (h : Kept log m) (hafter : m'.Accounted []) (hshift : m.Shift m' rest started rested gone)
    (hclosed : ∀ pool, (m.pools pool).closed = true → (m'.pools pool).closed = true)
    (hown : ∀ id, id ∉ rested.map Task.id ++ gone.map Prod.fst → of id own = [])
    (hrest : ∀ task ∈ rest, Life task.pool m'.now (of task.id log) task.wait)
    (hrested : ∀ task ∈ rested, Life task.pool m'.now (of task.id (log ++ own)) task.wait)
    (hgone : ∀ entry ∈ gone, ∃ pool,
      Ends pool (of entry.1 (log ++ own) ++ [(m'.now, .ended entry.2)]) entry.2 ∧
        (entry.2 = .cancelled → (m'.pools pool).closed = true)) :
    Kept (log ++ (own ++ m.changes m')) m' := by
  obtain ⟨hrests, hends, hmoved⟩ := hshift.apart hafter
  obtain ⟨-, hothers, hcame⟩ := List.nodup_append'.mp hmoved
  obtain ⟨-, -, hwaits⟩ := List.nodup_append'.mp hothers
  -- Nothing is added about a task that has neither come, gone on nor ended.
  have hsame : ∀ id, id ∉ started.map Task.id ++ (rested.map Task.id ++ gone.map Prod.fst) →
      of id (log ++ (own ++ m.changes m')) = of id log := by
    intro id hid
    obtain ⟨hs, hrg⟩ := not_or.mp (List.mem_append.not.mp hid)
    have hg : id ∉ gone.map Prod.fst := fun hmem => hrg (List.mem_append_right _ hmem)
    rw [of_append, of_append, hown id hrg, hshift.of_changes_other h.accounted hs hg,
      List.append_nil, List.append_nil]
  refine ⟨hafter, fun task htask => ?_, fun entry hentry => ?_, fun id hid => ?_⟩
  · have hid := List.mem_map_of_mem (f := Task.id) htask
    rw [hshift.tasks] at htask
    rcases List.mem_append.mp htask with hmem | hmem
    · rw [hsame task.id (hrests (List.mem_map_of_mem hmem))]
      exact hrest task hmem
    rcases List.mem_append.mp hmem with hmem | hmem
    · obtain ⟨body, hwait, hseen⟩ := hshift.of_changes_started h.accounted hafter hmem
      have hfresh := h.fresh task.id (hshift.startable.nextId_le hmem)
      rw [of_append, of_append, hfresh, hseen, hown task.id (hcame (List.mem_map_of_mem hmem)), hwait]
      exact .queued body (Nat.le_refl _)
    · have hself : task.id ∈ rested.map Task.id := List.mem_map_of_mem hmem
      have hs : task.id ∉ started.map Task.id :=
        fun hs => hcame hs (List.mem_append_left _ hself)
      rw [← List.append_assoc, of_append, hshift.of_changes_other h.accounted hs (hwaits hself),
        List.append_nil]
      exact hrested task hmem
  · rw [hshift.ended] at hentry
    rcases List.mem_append.mp hentry with hmem | hmem
    · obtain ⟨pool, hover, hpool⟩ := hgone entry hmem
      refine ⟨pool, ?_, hpool⟩
      rw [← List.append_assoc, of_append, hshift.of_changes_gone h.accounted hafter hmem]
      exact hover
    · obtain ⟨pool, hover, hpool⟩ := h.ended entry hmem
      refine ⟨pool, ?_, fun hcancelled => hclosed pool (hpool hcancelled)⟩
      rw [hsame entry.1 (hends (List.mem_map_of_mem hmem))]
      exact hover
  · rw [hsame id (hshift.not_moved hafter hid)]
    exact h.fresh id (by rw [hshift.nextId] at hid; omega)

theorem lt_nextId (h : Kept log m) {id : Nat} {entry : Nat × Sight W ι R} (hentry : entry ∈ of id log) :
    id < m.nextId := by
  refine Nat.lt_of_not_le fun hle => ?_
  rw [h.fresh id hle] at hentry
  exact absurd hentry List.not_mem_nil

/-- A task that was seen to start has not ended, or it has ended; if it was cancelled, its pool is
closed. -/
theorem reads (h : Kept log m) {t id : Nat} {pool : ι} {body : Process W ι R}
    (hmem : ⟨t, id, .scheduled pool body⟩ ∈ log) :
    ∃ sights, of id log = (t, .scheduled pool body) :: sights ∧
      ((∃ task ∈ m.tasks, task.id = id ∧ task.pool = pool ∧
          Life pool m.now (of id log) task.wait) ∨
        ∃ ending, (id, ending) ∈ m.ended ∧ Ends pool (of id log) ending ∧
          (ending = .cancelled → (m.pools pool).closed = true)) := by
  have hseen : (t, .scheduled pool body) ∈ of id log := mem_of.mpr hmem
  have hnumber : id ∈ m.numbers :=
    h.accounted.once.mem_iff.mpr (List.mem_range.mpr (h.lt_nextId hseen))
  rcases List.mem_append.mp hnumber with hlisted | hended
  · obtain ⟨task, htask, rfl⟩ := List.mem_map.mp hlisted
    have hlife := h.alive task htask
    obtain ⟨hpool, sights, hsights⟩ := hlife.startsWith.eq_of_mem hseen
    exact ⟨sights, hsights, Or.inl ⟨task, htask, rfl, hpool, hpool ▸ hlife⟩⟩
  · obtain ⟨entry, hentry, rfl⟩ := List.mem_map.mp hended
    obtain ⟨other, hends, hclosed⟩ := h.ended entry hentry
    obtain ⟨rfl, sights, hsights⟩ := hends.startsWith.eq_of_mem hseen
    exact ⟨sights, hsights, Or.inr ⟨entry.2, hentry, hends, hclosed⟩⟩

/-- Who stands under the number of a task that was started on a pool is of that pool. -/
theorem pool_eq (h : Kept log m) {task : Task W ι R} (htask : task ∈ m.tasks) {t : Nat} {pool : ι}
    {body : Process W ι R} (hstart : (t, .scheduled pool body) ∈ of task.id log) : task.pool = pool :=
  ((h.alive task htask).startsWith.eq_of_mem hstart).1

/-- A task of which only its start has been seen still waits for its permit. -/
theorem queued_of_singleton (h : Kept log m) {t id : Nat} {pool : ι} {body : Process W ι R}
    (hlog : of id log = [(t, .scheduled pool body)]) :
    ∃ task ∈ m.tasks, task.id = id ∧ task.pool = pool ∧ task.wait.queued = true := by
  have hmem : ⟨t, id, .scheduled pool body⟩ ∈ log :=
    mem_of.mp (hlog ▸ List.mem_singleton_self _)
  obtain ⟨-, -, hwhere⟩ := h.reads hmem
  rw [hlog] at hwhere
  rcases hwhere with ⟨task, htask, hid, hpool, hlife⟩ | ⟨_, _, hends, -⟩
  · exact ⟨task, htask, hid, hpool, hlife.queued_of_length rfl⟩
  · exact absurd hends.one_lt_length (Nat.lt_irrefl 1)

/-- Started tasks are seen as they come. -/
theorem enlist (h : Kept log m) (world : W) (hstarted : m.Startable started) :
    Kept (log ++ m.changes (m.enlist world started)) (m.enlist world started) := by
  have hshift : m.Shift (m.enlist world started) m.tasks started [] [] :=
    ⟨by simp [Machine.enlist], rfl, rfl, fun _ htask => htask,
      fun _ htask => absurd htask List.not_mem_nil, hstarted⟩
  have hnone : ∀ id, id ∉ [] ++ [] → of id ([] : List (Sighting W ι R)) = [] := fun _ _ => rfl
  exact h.shift (h.accounted.enlist hstarted) hshift (fun _ hpool => hpool) hnone
    (fun task htask => h.alive task htask) (fun _ htask => absurd htask List.not_mem_nil)
    fun _ hentry => absurd hentry List.not_mem_nil

/-- When no task comes, goes on or ends, nothing is seen; time may have passed, but not beyond a moment
that a task waits for. -/
theorem still (h : Kept log m) (htasks : m'.tasks = m.tasks) (hended : m'.ended = m.ended)
    (hnext : m'.nextId = m.nextId) (hnow : m.now ≤ m'.now)
    (hahead : ∀ task ∈ m.tasks, task.wait.Ahead m'.now)
    (hclosed : ∀ pool, (m.pools pool).closed = true → (m'.pools pool).closed = true) :
    m.changes m' = [] ∧ Kept log m' := by
  have hafter : m'.Accounted [] := by
    obtain ⟨honce, hinTurn⟩ := h.accounted
    refine ⟨?_, htasks ▸ hinTurn⟩
    rwa [Machine.numbers, htasks, hended, hnext]
  have hshift : m.Shift m' m.tasks [] [] [] :=
    ⟨by simp [htasks], by simp [hended], hnext, fun _ htask => htask,
      fun _ htask => absurd htask List.not_mem_nil, .nil m⟩
  have hchanges : m.changes m' = [] := by
    rw [Machine.changes, hshift.arrivals_eq h.accounted, hshift.departures_eq]
    rfl
  have hnone : ∀ id, id ∉ [] ++ [] → of id ([] : List (Sighting W ι R)) = [] := fun _ _ => rfl
  have hkept := h.shift hafter hshift hclosed hnone
    (fun task htask => (h.alive task htask).later hnow (hahead task htask))
    (fun _ htask => absurd htask List.not_mem_nil) fun _ hentry => absurd hentry List.not_mem_nil
  rw [hchanges, List.append_nil, List.append_nil] at hkept
  exact ⟨hchanges, hkept⟩

/-- When nothing is added and no time passes, nothing is seen. -/
theorem rests (h : Kept log m) (htasks : m'.tasks = m.tasks) (hended : m'.ended = m.ended)
    (hnext : m'.nextId = m.nextId) (hnow : m'.now = m.now)
    (hclosed : ∀ pool, (m.pools pool).closed = true → (m'.pools pool).closed = true) :
    Kept (log ++ m.changes m') m' := by
  have hahead : ∀ task ∈ m.tasks, task.wait.Ahead m'.now :=
    fun task htask => hnow ▸ (h.alive task htask).ahead
  obtain ⟨hchanges, hkept⟩ := h.still htasks hended hnext (Nat.le_of_eq hnow.symm) hahead hclosed
  rw [hchanges, List.append_nil]
  exact hkept

/-- What a process in the foreground does is seen by the tasks that it starts. -/
theorem advances {p p' : Process W ι R} (h : Kept log m) (hadvances : m.Advances p p' m') :
    Kept (log ++ m.changes m') m' := by
  cases hadvances with
  | act effect next => exact h.rests rfl rfl rfl rfl fun _ hpool => hpool
  | sleep ms next => exact h.rests rfl rfl rfl rfl fun _ hpool => hpool
  | pause ms next interrupted => exact h.rests rfl rfl rfl rfl fun _ hpool => hpool
  | spawn pool body next =>
      obtain ⟨started, hstarted, hspawn⟩ := Machine.exists_spawn_eq m pool body
      rw [hspawn]
      exact h.enlist m.world hstarted
  | join next hending => exact h.rests rfl rfl rfl rfl fun _ hpool => hpool

theorem withWorld (h : Kept log m) (w : W) : Kept log { m with world := w } :=
  ⟨⟨h.accounted.once, h.accounted.inTurn⟩, h.alive, h.ended, h.fresh⟩

variable [DecidableEq ι]

/-- A task goes on: what it does is seen, and whether it waits again or ends. -/
theorem goOn (h : Kept log m) {task : Task W ι R} {before after : List (Task W ι R)}
    (htasks : m.tasks = before ++ task :: after) (hready : m.wakeTime task = some m.now) :
    let m' := Machine.resume task { m with tasks := before ++ after }
    Kept (log ++ (m.going task ++ m.changes m')) m' := by
  intro m'
  have htask : task ∈ m.tasks := by simp [htasks]
  have hgiven : task.id < m.nextId := h.accounted.id_lt_nextId htask
  have hothers : ∀ t ∈ before ++ after, t ∈ m.tasks := fun t ht => (sublist_of_eq htasks).subset ht
  obtain ⟨t, permitted, body, trail, q, world, started, hseen, ht, hnow, htimed, hstarted, hcomes⟩ :=
    (h.alive task htask).goesOn hready (before ++ after)
  rw [← of_append] at hseen
  have htaken : Machine.Accounted [task.id]
      (Machine.enlist { m with tasks := before ++ after } world started) :=
    (h.accounted.take htasks).enlist hstarted
  have hafter : m'.Accounted [] := htaken.rests hcomes.rests
  have hstartable : m.Startable started := ⟨hstarted.numbered, hstarted.queued, hstarted.accepted⟩
  have hmine : ∀ id, id ∉ [task.id] → of id (m.going task) = [] :=
    fun id hid => Machine.of_going_other (List.mem_singleton.not.mp hid)
  have hnone : ∀ t' ∈ ([] : List (Task W ι R)), t'.id < m.nextId :=
    fun _ hmem => absurd hmem List.not_mem_nil
  let rested : Machine W ι R := Machine.enlist { m with tasks := before ++ after } world started
  change rested.ComesTo _ _ q m' at hcomes
  clear_value m'
  cases hcomes with
  | @waits _ wait hhalts =>
      let self : Task W ι R := ⟨task.id, task.pool, wait⟩
      have hshift : m.Shift (rested.park self) (before ++ after) started [self] [] :=
        ⟨List.append_assoc _ _ _, rfl, rfl, hothers, List.forall_mem_singleton.mpr hgiven, hstartable⟩
      refine h.shift hafter hshift (fun _ hpool => hpool) hmine (fun t ht => h.alive t (hothers t ht))
        (List.forall_mem_singleton.mpr ?_) fun _ hentry => absurd hentry List.not_mem_nil
      rw [hseen]
      exact .going ht htimed hhalts (Nat.le_refl _) hhalts.ahead
  | finishes result =>
      have hshift : m.Shift (rested.finish task.id (.finished result)) (before ++ after) started []
          [(task.id, .finished result)] :=
        ⟨by rw [List.append_nil]; rfl, rfl, rfl, hothers, hnone, hstartable⟩
      refine h.shift hafter hshift (fun _ hpool => hpool) hmine (fun t ht => h.alive t (hothers t ht))
        (fun _ hmem => absurd hmem List.not_mem_nil) (List.forall_mem_singleton.mpr ?_)
      rw [hseen]
      exact ⟨task.pool, .finishes ht htimed, nofun⟩
  | breaks =>
      have hshift : m.Shift (rested.lose task.id task.pool .panicked) (before ++ after) started []
          [(task.id, .panicked)] :=
        ⟨by rw [List.append_nil]; rfl, rfl, rfl, hothers, hnone, hstartable⟩
      refine h.shift hafter hshift (fun pool hpool => ?_) hmine (fun t ht => h.alive t (hothers t ht))
        (fun _ hmem => absurd hmem List.not_mem_nil) (List.forall_mem_singleton.mpr ?_)
      · rw [Machine.closed_lose]
        exact hpool
      · rw [hseen]
        exact ⟨task.pool, .breaks ht htimed, nofun⟩

/-- Clearing a closed pool is seen as the end of its tasks. -/
theorem cancel (h : Kept log m) {pool : ι} (hclosed : (m.pools pool).closed = true) :
    Kept (log ++ m.changes (m.cancel pool)) (m.cancel pool) := by
  let gone : List (Nat × Ending R) := (m.tasksOf pool).map fun task => (task.id, .cancelled)
  have hothers : ∀ t ∈ m.tasks.filter (fun task => task.pool ≠ pool), t ∈ m.tasks :=
    fun t ht => (List.mem_filter.mp ht).1
  have hshift : m.Shift (m.cancel pool) (m.tasks.filter fun task => task.pool ≠ pool) [] [] gone :=
    ⟨(List.append_nil _).symm, rfl, rfl, hothers, fun _ hmem => absurd hmem List.not_mem_nil, .nil m⟩
  have hnone : ∀ id, id ∉ [] ++ gone.map Prod.fst → of id ([] : List (Sighting W ι R)) = [] :=
    fun _ _ => rfl
  refine h.shift (h.accounted.cancel pool) hshift (fun other hother => ?_) hnone
    (fun t ht => h.alive t (hothers t ht)) (fun _ hmem => absurd hmem List.not_mem_nil)
    fun entry hentry => ?_
  · rw [Machine.closed_cancel]
    exact hother
  · obtain ⟨task, htask, rfl⟩ := List.mem_map.mp hentry
    obtain ⟨hlisted, rfl⟩ := Machine.mem_tasksOf.mp htask
    refine ⟨task.pool, ?_, fun _ => ?_⟩
    · rw [List.append_nil]
      exact .cancelled (h.alive task hlisted)
    · rw [Machine.closed_cancel]
      exact hclosed

/-- Whatever happens on a punctual machine, the log is kept. -/
theorem turn {event : Event W ι R} (h : Kept log m) (hturn : m.Turn event m')
    (hpunctual : m.Punctual event) : Kept (log ++ m.seen event m') m' := by
  cases hturn with
  | goesOn htasks hready _ => exact h.goOn htasks hready
  | @passes moment hnow =>
      have hahead : ∀ task ∈ m.tasks, task.wait.Ahead moment :=
        fun task htask => (h.alive task htask).ahead.passes (hpunctual task htask)
      let later : Machine W ι R := { m with now := moment }
      have hstill : m.changes later = [] ∧ Kept log later :=
        h.still rfl rfl rfl hnow hahead fun _ hpool => hpool
      obtain ⟨hchanges, hkept⟩ := hstill
      show Kept (log ++ m.changes later) later
      rw [hchanges, List.append_nil]
      exact hkept
  | interrupts =>
      have hpools := Machine.pools_raiseInterrupt m
      refine h.rests (Machine.tasks_raiseInterrupt m) ?_ ?_ ?_ fun pool hpool => hpools ▸ hpool
      all_goals
        unfold Machine.raiseInterrupt
        split <;> rfl
  | closes pool =>
      refine h.rests rfl rfl rfl rfl fun other hother => ?_
      show (if other = pool then _ else m.pools other).closed = true
      split
      · rfl
      · exact hother
  | drops _ => exact absurd hpunctual id
  | clears pool => exact h.cancel hpunctual

end Kept

namespace Crowd

variable [DecidableEq ι] {begins : Process W ι R → Prop} {changes : W → W → Prop}
  {c c' first : Crowd W ι R} {log more : List (Sighting W ι R)}

theorem Sees.kept (h : c.Sees begins changes more c') (hkept : Kept log c.machine) :
    Kept (log ++ more) c'.machine := by
  cases h with
  | turn hturn hpunctual => exact hkept.turn hturn hpunctual
  | begun _ => simpa using hkept
  | advances _ hadvances => exact hkept.advances hadvances
  | leaves _ => simpa using hkept
  | host _ => simpa using hkept.withWorld _

namespace Timeline

/-- On a machine that has started without tasks, the log tells of every task what has been seen of it. -/
theorem kept {world : W} {pools : ι → Pool} {callers : List (Process W ι R)}
    (h : Timeline begins changes ⟨.start world pools, callers⟩ log c) : Kept log c.machine := by
  induction h with
  | nil =>
      exact ⟨.start world pools, fun _ h => absurd h List.not_mem_nil,
        fun _ h => absurd h List.not_mem_nil, fun _ _ => rfl⟩
  | snoc _ hsees ih => exact hsees.kept ih

theorem trans (h : Timeline begins changes first log c) (h' : Timeline begins changes c more c') :
    Timeline begins changes first (log ++ more) c' := by
  induction h' with
  | nil =>
      rw [List.append_nil]
      exact h
  | snoc _ hsees ih =>
      rw [← List.append_assoc]
      exact ih.snoc hsees

/-- Without its log, a timeline is a course of the crowd. -/
theorem reaches (h : Timeline begins changes first log c) : Reaches begins changes first c := by
  induction h with
  | nil => exact .refl
  | snoc _ hsees ih => exact ih.tail hsees.step

end Timeline

/-! ## Runs as timelines -/

section Courses

variable {m m' : Machine W ι R} {callers : List (Process W ι R)}

theorem timeline_of_punctually (h : m.Punctually m') :
    ∃ log, Timeline begins changes ⟨m, callers⟩ log ⟨m', callers⟩ := by
  obtain ⟨events, hevents⟩ := h
  induction hevents with
  | nil => exact ⟨[], .nil⟩
  | snoc _ hlast ih =>
      obtain ⟨log, hlog⟩ := ih
      exact ⟨_, hlog.snoc (.turn hlast.1 hlast.2)⟩

/-- The first of the processes does its next thing, after some turns of the machine. -/
theorem timeline_of_advances {waited : Machine W ι R} {p p' : Process W ι R} {c : Crowd W ι R}
    (hwaited : m.Punctually waited) (h : waited.Advances p p' m')
    (hrest : ∃ log, Timeline begins changes ⟨m', p' :: callers⟩ log c) :
    ∃ log, Timeline begins changes ⟨m, p :: callers⟩ log c := by
  obtain ⟨log, hlog⟩ := timeline_of_punctually hwaited
  obtain ⟨more, hmore⟩ := hrest
  have hcallers : p :: callers = [] ++ p :: callers := rfl
  exact ⟨_, (hlog.snoc (.advances hcallers h)).trans hmore⟩

/-- A run in the foreground that comes to its end is a timeline of the crowd. -/
theorem timeline_run (p : Process W ι R) : ∀ m : Machine W ι R, m.Completes p →
    ∃ log, Timeline begins changes ⟨m, p :: callers⟩ log ⟨(m.run p).2, callers⟩ := by
  induction p with
  | done result =>
      intro m _
      have hcallers : Process.done result :: callers = [] ++ .done result :: callers := rfl
      have hleaves : Sees begins changes ⟨m, .done result :: callers⟩ [] ⟨m, [] ++ callers⟩ :=
        .leaves hcallers
      exact ⟨_, Timeline.nil.snoc hleaves⟩
  | crash => exact fun m h => absurd h id
  | act effect next ih =>
      exact fun m h => timeline_of_advances (.refl m) (.act effect next) (ih m.world _ h)
  | sleep ms next ih =>
      intro m h
      have hwaited : m.Punctually (if ms = 0 then m else m.advanceTo (m.now + ms)) := by
        split
        · exact .refl m
        · exact Machine.punctually_advanceTo _ m
      exact timeline_of_advances hwaited (.sleep ms next) (ih _ h)
  | pause ms next ih =>
      intro m h
      obtain ⟨interrupted, waited, hkind, hrun, hcompletes⟩ := Machine.pause_cases ms next m
      have hwaited : m.Punctually waited := by
        rcases hkind with rfl | ⟨moment, rfl⟩
        · exact .refl _
        · exact Machine.punctually_advanceTo moment m
      rw [hrun]
      exact timeline_of_advances hwaited (.pause ms next interrupted)
        (ih interrupted waited (hcompletes.mp h))
  | spawn pool body next _ ih =>
      exact fun m h => timeline_of_advances (.refl m) (.spawn pool body next) (ih _ _ h)
  | join task next ih =>
      intro m h
      obtain ⟨ending, hending⟩ := Option.isSome_iff_exists.mp h.1
      have hresult : (m.awaitEnd task).result? task = ending.result? := by
        rw [Machine.result?, hending]
        rfl
      have hrest := h.2
      rw [hresult] at hrest
      rw [Machine.run]
      simp only [hresult]
      exact timeline_of_advances (Machine.punctually_drive _ _ m) (.join next hending) (ih _ _ hrest)

/-- A run in the foreground that comes to its end is a course of the crowd. -/
theorem reaches_run {p : Process W ι R} (h : m.Completes p) :
    Reaches begins changes ⟨m, p :: callers⟩ ⟨(m.run p).2, callers⟩ := by
  obtain ⟨log, hlog⟩ := timeline_run p m h
  exact hlog.reaches

end Courses

end Crowd

end MenuActions.Schedule
