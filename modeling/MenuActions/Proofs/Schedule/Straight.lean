import MenuActions.Proofs.Schedule.Drive

/-!
# Processes that run in one go

A process runs straight when it changes the world and ends, with no wait and no task in between; it
does the same in a task and in the foreground.  In the foreground of an idle machine a process may
also start such a task and wait for it: the task is the only one that can go on, so nothing comes
between the two.

`Yields.spawn` is this last fact.  Both notions compose along `bind` and `sequence`.
-/

namespace MenuActions.Schedule

variable {W ι R : Type}

namespace Process

/-- A process takes one world to another in one go and ends with a result. -/
inductive Straight : Process W ι R → W → R → W → Prop
  | done (result : R) (w : W) : Straight (.done result) w result w
  | act {effect : Nat → W → W} {next : W → Process W ι R} {first middle last : W} {result : R} :
      (∀ now, effect now first = middle) → Straight (next first) middle result last →
      Straight (.act effect next) first result last

theorem Straight.bind {p : Process W ι R} {k : R → Process W ι R} {first middle last : W}
    {result final : R} (hp : p.Straight first result middle)
    (hk : (k result).Straight middle final last) : (p.bind k).Straight first final last := by
  induction hp with
  | done _ _ => exact hk
  | act heffect _ ih => exact .act heffect (ih hk)

end Process

namespace Machine

variable [DecidableEq ι]

theorem run_of_straight {p : Process W ι R} {w w' : W} {result : R}
    (h : p.Straight w result w') (m : Machine W ι R) :
    run p { m with world := w } = (some result, { m with world := w' }) := by
  induction h with
  | done _ _ => rfl
  | act heffect _ ih =>
      rw [run, heffect]
      exact ih

theorem proceed_of_straight {p : Process W ι R} {w w' : W} {result : R}
    (h : p.Straight w result w') (id : Nat) (pool : ι) (m : Machine W ι R) :
    proceed id pool p { m with world := w } =
      ({ m with world := w' }).finish id (.finished result) := by
  induction h with
  | done _ _ => rfl
  | act heffect _ ih =>
      rw [proceed, heffect]
      exact ih

/-- No task is in flight, every pool takes tasks, and no task has the number of the next one. -/
structure Idle (m : Machine W ι R) : Prop where
  tasks : m.tasks = []
  accepting : ∀ pool, (m.pools pool).closed = false
  permits : ∀ pool, 0 < (m.pools pool).permits
  ended : ∀ entry ∈ m.ended, entry.1 < m.nextId

omit [DecidableEq ι] in
/-- A machine at its start is idle when its pools take tasks. -/
theorem idle_start (world : W) {pools : ι → Pool} (hopen : ∀ pool, (pools pool).closed = false)
    (hpermits : ∀ pool, 0 < (pools pool).permits) :
    (start world pools : Machine W ι R).Idle :=
  ⟨rfl, hopen, hpermits, fun _ h => absurd h List.not_mem_nil⟩

omit [DecidableEq ι] in
theorem Idle.withWorld {m : Machine W ι R} (h : m.Idle) (w : W) : Idle { m with world := w } :=
  ⟨h.tasks, h.accepting, h.permits, h.ended⟩

/-- A machine on which one more task has run in one go. -/
def absorb (m : Machine W ι R) (w : W) (result : R) : Machine W ι R :=
  { m with
    world := w
    ended := (m.nextId, .finished result) :: m.ended
    nextId := m.nextId + 1 }

namespace Idle

variable {m : Machine W ι R}

omit [DecidableEq ι] in
theorem absorb (h : m.Idle) (w : W) (result : R) : (m.absorb w result).Idle := by
  refine ⟨h.tasks, h.accepting, h.permits, ?_⟩
  intro entry hentry
  show entry.1 < m.nextId + 1
  rcases List.mem_cons.mp hentry with rfl | hentry
  · exact Nat.lt_succ_self _
  · exact Nat.lt_succ_of_lt (h.ended entry hentry)

omit [DecidableEq ι] in
/-- No task has ended under the number of the next one. -/
theorem ending?_nextId (h : m.Idle) : m.ending? m.nextId = none := by
  have hnone : m.ended.find? (fun entry => entry.1 == m.nextId) = none := by
    rw [List.find?_eq_none]
    intro entry hentry
    have hlt := h.ended entry hentry
    simp only [beq_iff_eq]
    omega
  rw [ending?, hnone]
  rfl

omit [DecidableEq ι] in
theorem spawn_eq (h : m.Idle) (pool : ι) (body : Process W ι R) :
    m.spawn pool body =
      (some m.nextId,
        { m with tasks := [⟨m.nextId, pool, .permit body⟩], nextId := m.nextId + 1 }) := by
  rw [Machine.spawn, if_neg (by simp [h.accepting pool]), h.tasks]
  rfl

/-- The only task of a pool with a permit goes on at once. -/
theorem step?_spawn (h : m.Idle) (pool : ι) {body : Process W ι R} {w : W} {result : R}
    (hbody : body.Straight m.world result w) :
    (m.spawn pool body).2.step? none = some (m.absorb w result) := by
  let task : Task W ι R := ⟨m.nextId, pool, .permit body⟩
  let started : Machine W ι R := { m with tasks := [task], nextId := m.nextId + 1 }
  -- No task holds a permit of the pool, so there is one for this task.
  have hrunning : started.running pool = 0 := by
    simp [started, task, Machine.running, Machine.tasksOf, Wait.queued]
  have hwake : started.wakeTime task = some m.now := by
    refine if_pos ?_
    rw [hrunning]
    exact h.permits pool
  have hearliest : earliest started.wakeTime started.tasks = some (m.now, task, []) := by
    show earliest started.wakeTime [task] = _
    rw [earliest, hwake]
    rfl
  have hgo := proceed_of_straight hbody m.nextId pool
    ({ started with tasks := [] } : Machine W ι R)
  rw [h.spawn_eq]
  show started.step? none = _
  rw [step?, hearliest]
  show some (proceed m.nextId pool body { started with tasks := [] }) = _
  refine congrArg some (hgo.trans ?_)
  rw [Machine.absorb, finish, h.tasks]

/-- Waiting for a straight task that an idle machine has started is over when it has run. -/
theorem awaitEnd_spawn (h : m.Idle) (pool : ι) {body : Process W ι R} {w : W} {result : R}
    (hbody : body.Straight m.world result w) :
    (m.spawn pool body).2.awaitEnd m.nextId = m.absorb w result := by
  have hopen : (m.spawn pool body).2.ending? m.nextId = none := by
    rw [h.spawn_eq]
    exact h.ending?_nextId
  have hended : ((m.absorb w result).ending? m.nextId).isSome = true := by
    simp [Machine.absorb, ending?]
  rw [awaitEnd, drive_of_step (by rw [hopen]; rfl) (h.step?_spawn pool hbody),
    drive_of_enough hended]

end Idle

end Machine

namespace Process

variable [DecidableEq ι]

/-- In the foreground of an idle machine, a process takes one world to another, ends with a result
and leaves the machine idle. -/
def Yields (p : Process W ι R) (first : W) (result : R) (last : W) : Prop :=
  ∀ m : Machine W ι R, m.Idle → m.world = first →
    ∃ after : Machine W ι R, m.run p = (some result, after) ∧ after.Idle ∧ after.world = last

theorem Straight.yields {p : Process W ι R} {first last : W} {result : R}
    (h : p.Straight first result last) : p.Yields first result last := by
  intro m hidle hworld
  refine ⟨{ m with world := last }, ?_, hidle.withWorld last, rfl⟩
  have hrun := Machine.run_of_straight h m
  rw [← hworld] at hrun
  exact hrun

namespace Yields

theorem done (result : R) (w : W) : (Process.done result : Process W ι R).Yields w result w :=
  (Straight.done result w).yields

theorem act {effect : Nat → W → W} {next : W → Process W ι R} {first middle last : W} {result : R}
    (heffect : ∀ now, effect now first = middle) (hnext : (next first).Yields middle result last) :
    (Process.act effect next).Yields first result last := by
  intro m hidle hworld
  obtain ⟨after, hrun, hafter⟩ := hnext { m with world := middle } (hidle.withWorld middle) rfl
  refine ⟨after, ?_, hafter⟩
  rw [Machine.run, hworld, heffect]
  exact hrun

theorem bind {p : Process W ι R} {k : R → Process W ι R} {first middle last : W} {result final : R}
    (hp : p.Yields first result middle) (hk : (k result).Yields middle final last) :
    (p.bind k).Yields first final last := by
  intro m hidle hworld
  obtain ⟨middle, hrun, hmiddle, hw⟩ := hp m hidle hworld
  obtain ⟨after, hrest, hafter⟩ := hk middle hmiddle hw
  refine ⟨after, ?_, hafter⟩
  rw [Machine.run_bind, hrun]
  exact hrest

/-- A straight task that is started and waited for runs at once and gives its result. -/
theorem spawn {pool : ι} {body : Process W ι R} {next : Option Nat → Process W ι R}
    {k : Option R → Process W ι R} {first middle last : W} {result final : R}
    (hnext : ∀ id, next (some id) = .join id k) (hbody : body.Straight first result middle)
    (hk : (k (some result)).Yields middle final last) :
    Yields (.spawn pool body next) first final last := by
  intro m hidle hworld
  subst hworld
  have hresult : (m.absorb middle result).result? m.nextId = some result := by
    simp [Machine.absorb, Machine.result?, Machine.ending?, Ending.result?]
  obtain ⟨after, hrun, hafter⟩ :=
    hk (m.absorb middle result) (hidle.absorb middle result) rfl
  refine ⟨after, ?_, hafter⟩
  have hissued : (m.spawn pool body).1 = some m.nextId := by rw [hidle.spawn_eq]
  rw [Machine.run, hissued, hnext, Machine.run]
  simp only [hidle.awaitEnd_spawn pool hbody, hresult]
  exact hrun

end Yields

end Process

end MenuActions.Schedule
