import MenuActions.Proofs.Schedule.OrderlyMachine

/-!
# Progress

Tasks wait for each other only down the ranks of their pools, so an orderly machine is never stuck:
when no task can go on, there is none.  Two things follow.

A process in the foreground is answered: `Completes` says of a run that every task for which it waits
has ended when it goes on, and `Orderly.run` that this is so.  And when nothing new is started, a
moment comes after which no task is left, which is `Orderly.comes_to_rest`.
-/

namespace MenuActions.Schedule.Machine

variable {W ι R : Type}

theorem isSome_ending?_of_mem {m : Machine W ι R} {id : Nat}
    (h : ∃ entry ∈ m.ended, entry.1 = id) : (m.ending? id).isSome := by
  obtain ⟨entry, hentry, hid⟩ := h
  have hfound : (m.ended.find? fun entry => entry.1 == id).isSome := by
    rw [List.find?_isSome]
    exact ⟨entry, hentry, by simpa using hid⟩
  simpa [ending?] using hfound

variable [DecidableEq ι]

/-- A run in the foreground comes to its end: it does not break down, and whenever it waits for a
task, that task has ended when the machine stops. -/
def Completes : Process W ι R → Machine W ι R → Prop
  | .done _, _ => True
  | .crash, _ => False
  | .act effect next, m => Completes (next m.world) { m with world := effect m.now m.world }
  | .sleep ms next, m => Completes next (if ms = 0 then m else m.advanceTo (m.now + ms))
  | .pause ms next, m =>
      if m.interrupted then Completes (next true) m
      else if ms = 0 then Completes (next false) m
      else
        let due := m.now + ms
        let waited := m.advanceTo (min due (m.interrupt.getD due))
        Completes (next waited.interrupted) waited
  | .spawn pool body next, m => Completes (next (m.spawn pool body).1) (m.spawn pool body).2
  | .join task next, m =>
      let waited := m.awaitEnd task
      (waited.ending? task).isSome ∧ Completes (next (waited.result? task)) waited

/-- A pause is over after some time, or at once, and the process goes on with what it learned. -/
theorem pause_cases (ms : Nat) (next : Bool → Process W ι R) (m : Machine W ι R) :
    ∃ interrupted waited, (waited = m ∨ ∃ moment, waited = m.advanceTo moment) ∧
      m.run (.pause ms next) = waited.run (next interrupted) ∧
      (m.Completes (.pause ms next) ↔ waited.Completes (next interrupted)) := by
  rw [run, Completes]
  split
  · exact ⟨true, m, Or.inl rfl, rfl, Iff.rfl⟩
  · split
    · exact ⟨false, m, Or.inl rfl, rfl, Iff.rfl⟩
    · exact ⟨_, _, Or.inr ⟨_, rfl⟩, rfl, Iff.rfl⟩

variable [Preorder W] {inv : W → Prop} {rank : ι → Nat} {level : Nat} {w : W}
  {m m' : Machine W ι R}

/-- A process is answered in the foreground of a machine, and leaves it orderly. -/
structure Answers (inv : W → Prop) (rank : ι → Nat) (p : Process W ι R) (m : Machine W ι R) :
    Prop where
  completes : m.Completes p
  answered : (m.run p).1.isSome
  follows : m.Follows inv rank (m.run p).2

namespace Orderly

omit [DecidableEq ι] in
/-- A task that is issued has ended when no task is left. -/
theorem isSome_ending? (h : m.Orderly inv rank none) (htasks : m.tasks = []) {id : Nat}
    (hid : id < m.nextId) : (m.ending? id).isSome := by
  rcases h.accounted id hid with ⟨pool, hnone | ⟨task, htask, _⟩⟩ | hended
  · exact absurd hnone (by simp)
  · rw [htasks] at htask
    exact absurd htask List.not_mem_nil
  · exact isSome_ending?_of_mem hended

/-- A task with a permit goes on when time passes, when there are no tasks on pools of lower ranks: it
could only wait for one of those. -/
theorem isSome_wakeTime (h : m.Orderly inv rank none) {task : Task W ι R} (htask : task ∈ m.tasks)
    (hholds : task.wait.queued = false)
    (hlower : ∀ other ∈ m.tasks, rank task.pool ≤ rank other.pool) : (m.wakeTime task).isSome := by
  have hwait := h.waits task htask
  unfold wakeTime
  cases hkind : task.wait with
  | permit body => exact absurd (hkind ▸ hholds) (by simp [Wait.queued])
  | moment due next => rfl
  | signal due next =>
      dsimp only
      split
      · rfl
      · rfl
  | ending awaited next =>
      rw [hkind] at hwait
      -- If what it waits for had not ended, it would be a task on a pool of a lower rank.
      obtain ⟨⟨hissued, hbelow⟩, _⟩ := hwait
      rcases h.accounted awaited hissued with ⟨pool, hlive⟩ | hended
      · have hlt := hbelow pool hlive
        rcases hlive with hnone | ⟨other, hother, _, rfl⟩
        · exact absurd hnone (by simp)
        · exact absurd hlt (Nat.not_lt.mpr (hlower other hother))
      · simpa using isSome_ending?_of_mem hended

/-- Of the tasks on pools of one rank none is stuck with its permit, when there are none on pools of
lower ranks. -/
theorem queued_of_stuck (h : m.Orderly inv rank none) (hstuck : m.step? none = none)
    {task : Task W ι R} (htask : task ∈ m.tasks)
    (hlower : ∀ other ∈ m.tasks, rank task.pool ≤ rank other.pool) : task.wait.queued = true := by
  cases hqueued : task.wait.queued with
  | true => rfl
  | false =>
      have hwake := h.isSome_wakeTime htask hqueued hlower
      rw [wakeTime_of_stuck hstuck task htask] at hwake
      exact absurd hwake (by simp)

/-- A task that is stuck without a permit leaves its pool's permits to others. -/
theorem exists_running_of_stuck (h : m.Orderly inv rank none) (hstuck : m.step? none = none)
    {task : Task W ι R} (htask : task ∈ m.tasks) (hqueued : task.wait.queued = true) :
    ∃ other ∈ m.tasks, other.pool = task.pool ∧ other.wait.queued = false := by
  have hbusy : ¬m.running task.pool < (m.pools task.pool).permits := by
    have hwake := wakeTime_of_stuck hstuck task htask
    unfold wakeTime at hwake
    cases hkind : task.wait with
    | permit body =>
        rw [hkind] at hwake
        simpa using hwake
    | moment due next => exact absurd (hkind ▸ hqueued) (by simp [Wait.queued])
    | signal due next => exact absurd (hkind ▸ hqueued) (by simp [Wait.queued])
    | ending awaited next => exact absurd (hkind ▸ hqueued) (by simp [Wait.queued])
  have hrunning : 0 < m.running task.pool := by
    have hpermits := h.permits task.pool
    omega
  obtain ⟨other, hother, hholds⟩ := List.countP_pos_iff.mp hrunning
  obtain ⟨hlisted, hpool⟩ := List.mem_filter.mp hother
  exact ⟨other, hlisted, by simpa using hpool, by simpa using hholds⟩

/-- An orderly machine is not stuck: when no task can go on, there is none. -/
theorem tasks_of_stuck (h : m.Orderly inv rank none) (hstuck : m.step? none = none) :
    m.tasks = [] := by
  -- By induction on the rank, there is no task on a pool of any rank.
  have hnone : ∀ n, ∀ task ∈ m.tasks, rank task.pool ≠ n := by
    intro n
    induction n using Nat.strongRecOn with
    | ind n ih =>
        rintro task htask rfl
        have hlower : ∀ other ∈ m.tasks, rank task.pool ≤ rank other.pool := by
          intro other hother
          rcases Nat.lt_or_ge (rank other.pool) (rank task.pool) with hlt | hge
          · exact absurd rfl (ih _ hlt other hother)
          · exact hge
        have hqueued := h.queued_of_stuck hstuck htask hlower
        -- The permits are with tasks of the same rank, and none of those is stuck.
        obtain ⟨other, hother, hpool, hholds⟩ := h.exists_running_of_stuck hstuck htask hqueued
        have hwaits := h.queued_of_stuck hstuck hother (by rw [hpool]; exact hlower)
        rw [hwaits] at hholds
        exact absurd hholds (by simp)
  exact List.eq_nil_iff_forall_not_mem.mpr fun task htask => hnone _ task htask rfl

/-- A task that has been started has ended when the machine stops waiting for it. -/
theorem ending?_awaitEnd (h : m.Orderly inv rank none) {id : Nat} (hid : id < m.nextId) :
    ((m.awaitEnd id).ending? id).isSome := by
  have hafter := h.drive (fun m => (m.ending? id).isSome) none
  rcases drive_stops (fun m => (m.ending? id).isSome) none m with henough | hstuck
  · exact henough
  · exact hafter.1.isSome_ending? (hafter.1.tasks_of_stuck hstuck)
      (Nat.lt_of_lt_of_le hid hafter.2.nextId)

/-- An orderly process in the foreground is never left waiting, and ends with a result. -/
theorem run {p : Process W ι R} (hp : p.Orderly inv rank level w) :
    ∀ m : Machine W ι R, m.Orderly inv rank none → w ≤ m.world → m.Answers inv rank p := by
  induction hp with
  | done => exact fun m h _ => ⟨trivial, rfl, h, .refl m⟩
  | act heffect _ ih =>
      intro m h hle
      obtain ⟨hforward, hinv⟩ := heffect m.world hle h.world m.now
      have hrest := ih m.world hle h.world m.now _ (h.withWorld hforward hinv) le_rfl
      exact ⟨hrest.completes, hrest.answered, (onward_withWorld hforward).follows hrest.follows⟩
  | @sleep _ ms _ _ _ ih =>
      intro m h hle
      have hwaited : m.Follows inv rank (if ms = 0 then m else m.advanceTo (m.now + ms)) := by
        split
        · exact ⟨h, .refl m⟩
        · exact h.advanceTo (m.now + ms)
      have hrest := ih _ hwaited.orderly (le_trans hle hwaited.onward.world)
      exact ⟨hrest.completes, hrest.answered, hwaited.onward.follows hrest.follows⟩
  | @pause _ ms next _ _ ih =>
      intro m h hle
      obtain ⟨interrupted, waited, hkind, hrun, hcompletes⟩ := pause_cases ms next m
      have hwaited : m.Follows inv rank waited := by
        rcases hkind with rfl | ⟨moment, rfl⟩
        · exact ⟨h, .refl _⟩
        · exact h.advanceTo moment
      have hrest := ih interrupted waited hwaited.orderly (le_trans hle hwaited.onward.world)
      refine ⟨hcompletes.mpr hrest.completes, ?_, ?_⟩
      · rw [hrun]
        exact hrest.answered
      · rw [hrun]
        exact hwaited.onward.follows hrest.follows
  | @start _ pool body _ _ hbody _ _ ih =>
      intro m h hle
      have hon := onward_spawn m pool body
      have hrest := ih (m.spawn pool body).1 _ (h.spawn (hbody.mono hle)) (le_trans hle hon.world)
      exact ⟨hrest.completes, hrest.answered, hon.follows hrest.follows⟩
  | @call _ pool body next k _ hrank hbody _ hjoin _ _ ihnone ih =>
      intro m h hle
      have hon := onward_spawn m pool body
      have hworld := le_trans hle hon.world
      have hspawn := h.spawn (hbody.mono hle)
      have hrest : (m.spawn pool body).2.Answers inv rank (next (m.spawn pool body).1) := by
        cases htask : (m.spawn pool body).1 with
        | none => exact ihnone _ hspawn hworld
        | some task =>
            -- The machine is driven until the task has ended, and then the process goes on there.
            have hwaited := hspawn.drive (fun m => (m.ending? task).isSome) none
            have hlast := ih task (((m.spawn pool body).2.awaitEnd task).result? task) _
              hwaited.orderly (le_trans hworld hwaited.onward.world)
            have hended := hspawn.ending?_awaitEnd (h.below_spawn hrank htask).1
            rw [hjoin task]
            exact ⟨⟨hended, hlast.completes⟩, hlast.answered,
              hwaited.onward.follows hlast.follows⟩
      exact ⟨hrest.completes, hrest.answered, hon.follows hrest.follows⟩

/-- A step that is over by some moment is also taken when time is limited to that moment. -/
theorem step?_of_now_le (h : m.Orderly inv rank none) (hstep : m.step? none = some m')
    {moment : Nat} (hnow : m'.now ≤ moment) : m.step? (some moment) = some m' := by
  unfold step? at hstep ⊢
  cases hearliest : earliest m.wakeTime m.tasks with
  | none =>
      rw [hearliest] at hstep
      exact absurd hstep (by simp)
  | some found =>
      obtain ⟨due, task, rest⟩ := found
      rw [hearliest] at hstep
      have hresume := Option.some.inj hstep
      have hdue : due ≤ moment := by
        have hon := (h.resume (perm_of_earliest hearliest) due).onward.now
        rw [hresume] at hon
        exact Nat.le_trans hon hnow
      show (if decide (due ≤ moment) = true then _ else _) = _
      rw [if_pos (by simpa using hdue), hresume]

/-- A limit makes no difference when the machine stops before it of its own accord. -/
theorem drive_of_now_le {enough : Machine W ι R → Bool} {moment : Nat}
    (h : m.Orderly inv rank none) (hnow : (m.drive enough none).now ≤ moment) :
    m.drive enough (some moment) = m.drive enough none := by
  induction m using drive.induct enough none with
  | case1 m henough => rw [drive_of_enough henough, drive_of_enough henough]
  | case2 m henough next hnext ih =>
      have henough : enough m = false := by simpa using henough
      have hafter := h.step hnext
      rw [drive_of_step henough hnext] at hnow ⊢
      -- Time does not go back, so the next step is over by the limit as the last one is.
      have hlast : next.now ≤ moment := Nat.le_trans (hafter.orderly.drive _ _).onward.now hnow
      rw [drive_of_step henough (h.step?_of_now_le hnext hlast)]
      exact ih hafter.orderly hnow
  | case3 m _ hstuck =>
      have hidle : m.step? (some moment) = none := by
        rw [step?, h.tasks_of_stuck hstuck]
        rfl
      rw [drive_of_stuck hstuck, drive_of_stuck hidle]

/-- When nothing new is started, a moment comes after which no task is left. -/
theorem comes_to_rest (h : m.Orderly inv rank none) :
    ∃ quiet, ∀ moment, quiet ≤ moment → (m.advanceTo moment).tasks = [] := by
  let rest := m.drive (fun _ => false) none
  have hrest : rest.Orderly inv rank none := (h.drive _ _).orderly
  have hempty : rest.tasks = [] := by
    refine hrest.tasks_of_stuck ?_
    rcases drive_stops (fun _ => false) none m with hfalse | hstuck
    · exact absurd hfalse (by simp)
    · exact hstuck
  refine ⟨rest.now, fun moment hmoment => ?_⟩
  show (m.drive (fun _ => false) (some moment)).tasks = []
  rw [h.drive_of_now_le hmoment]
  exact hempty

end Orderly

end MenuActions.Schedule.Machine
