import MenuActions.Proofs.Schedule.Drive
import MenuActions.Proofs.Schedule.Orderly
import MenuActions.Schedule.Shutdown

/-!
# Machines with orderly tasks

A machine on which only orderly processes run is orderly at every moment: `Orderly.proceed` says so
of one task that goes on, `Orderly.step` of one step, and the theorems after it of the loops and of a
shutdown.
-/

namespace MenuActions.Schedule

variable {W ι R : Type} [Preorder W] {inv : W → Prop} {rank : ι → Nat} {level : Nat} {w : W}

namespace Machine

/-- A task of this number on this pool has not ended: it waits, or it is the active one, which is
not listed while it goes on. -/
def Live (m : Machine W ι R) (active : Option (Nat × ι)) (id : Nat) (pool : ι) : Prop :=
  active = some (id, pool) ∨ ∃ task ∈ m.tasks, task.id = id ∧ task.pool = pool

/-- A task of this number has been started, and unless it has ended its pool ranks below a level. -/
def Below (rank : ι → Nat) (m : Machine W ι R) (active : Option (Nat × ι)) (level id : Nat) :
    Prop :=
  id < m.nextId ∧ ∀ pool, m.Live active id pool → rank pool < level

/-- The world keeps the invariant, every pool has a permit, every task waits in an orderly way, and
every number that was given to a task is that of a task that has not ended or of one that has. -/
structure Orderly (inv : W → Prop) (rank : ι → Nat) (active : Option (Nat × ι))
    (m : Machine W ι R) : Prop where
  world : inv m.world
  permits : ∀ pool, 0 < (m.pools pool).permits
  waits : ∀ task ∈ m.tasks,
    task.wait.Orderly inv rank (rank task.pool) m.world (m.Below rank active (rank task.pool))
  issued : ∀ id pool, m.Live active id pool → id < m.nextId
  accounted : ∀ id < m.nextId,
    (∃ pool, m.Live active id pool) ∨ ∃ entry ∈ m.ended, entry.1 = id

/-- What only grows while a machine runs. -/
structure Onward (m m' : Machine W ι R) : Prop where
  now : m.now ≤ m'.now
  world : m.world ≤ m'.world
  nextId : m.nextId ≤ m'.nextId

theorem Onward.refl (m : Machine W ι R) : m.Onward m :=
  ⟨Nat.le_refl _, le_rfl, Nat.le_refl _⟩

theorem Onward.trans {m m' m'' : Machine W ι R} (h : m.Onward m') (h' : m'.Onward m'') :
    m.Onward m'' :=
  ⟨Nat.le_trans h.now h'.now, le_trans h.world h'.world, Nat.le_trans h.nextId h'.nextId⟩

theorem onward_withWorld {m : Machine W ι R} (hle : m.world ≤ w) :
    m.Onward { m with world := w } :=
  ⟨Nat.le_refl _, hle, Nat.le_refl _⟩

theorem onward_finish (m : Machine W ι R) (id : Nat) (ending : Ending R) :
    m.Onward (m.finish id ending) :=
  ⟨Nat.le_refl _, le_rfl, Nat.le_refl _⟩

theorem onward_park (m : Machine W ι R) (task : Task W ι R) : m.Onward (m.park task) :=
  ⟨Nat.le_refl _, le_rfl, Nat.le_refl _⟩

theorem onward_spawn (m : Machine W ι R) (pool : ι) (body : Process W ι R) :
    m.Onward (m.spawn pool body).2 := by
  unfold Machine.spawn
  split
  · exact .refl m
  · exact ⟨Nat.le_refl _, le_rfl, Nat.le_succ _⟩

theorem onward_raiseInterrupt (m : Machine W ι R) : m.Onward m.raiseInterrupt := by
  unfold Machine.raiseInterrupt
  split
  · exact .refl m
  · exact ⟨Nat.le_refl _, le_rfl, Nat.le_refl _⟩

/-- A machine to which another one has come in an orderly way. -/
structure Follows (inv : W → Prop) (rank : ι → Nat) (m m' : Machine W ι R) : Prop where
  orderly : m'.Orderly inv rank none
  onward : m.Onward m'

theorem Onward.follows {m m' m'' : Machine W ι R} (h : m.Onward m')
    (h' : m'.Follows inv rank m'') : m.Follows inv rank m'' :=
  ⟨h'.orderly, h.trans h'.onward⟩

namespace Orderly

variable {m m' : Machine W ι R} {active : Option (Nat × ι)} {id : Nat} {pool : ι}

/-- A machine at its start is orderly. -/
theorem start {pools : ι → Pool} (hinv : inv w) (hpermits : ∀ pool, 0 < (pools pool).permits) :
    (Machine.start w pools : Machine W ι R).Orderly inv rank none := by
  refine ⟨hinv, hpermits, fun _ h => absurd h List.not_mem_nil, ?_, fun id h => ?_⟩
  · rintro id pool (h | ⟨task, htask, _⟩)
    · exact absurd h (by simp)
    · exact absurd htask List.not_mem_nil
  · exact absurd h (Nat.not_lt_zero id)

theorem withWorld (h : m.Orderly inv rank active) (hle : m.world ≤ w) (hinv : inv w) :
    Orderly inv rank active { m with world := w } :=
  ⟨hinv, h.permits, fun task htask => (h.waits task htask).mono hle fun _ ha => ha, h.issued,
    h.accounted⟩

theorem withNow (h : m.Orderly inv rank active) (now : Nat) :
    Orderly inv rank active { m with now := now } :=
  ⟨h.world, h.permits, h.waits, h.issued, h.accounted⟩

theorem raiseInterrupt (h : m.Orderly inv rank active) :
    m.raiseInterrupt.Orderly inv rank active := by
  unfold Machine.raiseInterrupt
  split
  · exact h
  · exact ⟨h.world, h.permits, h.waits, h.issued, h.accounted⟩

/-- Tasks change places, become active, or end, and none is forgotten. -/
theorem relist {active' : Option (Nat × ι)} {tasks : List (Task W ι R)}
    {ended : List (Nat × Ending R)} (h : m.Orderly inv rank active)
    (hlive : ∀ i p, Live { m with tasks := tasks } active' i p → m.Live active i p)
    (hkept : ∀ i p, m.Live active i p →
      Live { m with tasks := tasks } active' i p ∨ ∃ entry ∈ ended, entry.1 = i)
    (hended : m.ended ⊆ ended)
    (hwaits : ∀ task ∈ tasks, task ∈ m.tasks ∨ task.wait.Orderly inv rank (rank task.pool) m.world
      (m.Below rank active (rank task.pool))) :
    Orderly inv rank active' { m with tasks := tasks, ended := ended } := by
  refine ⟨h.world, h.permits, fun task htask => ?_, fun i p hi => h.issued i p (hlive i p hi),
    fun i hi => ?_⟩
  · have hwait : task.wait.Orderly inv rank (rank task.pool) m.world
        (m.Below rank active (rank task.pool)) := by
      rcases hwaits task htask with hold | hnew
      · exact h.waits task hold
      · exact hnew
    refine hwait.mono le_rfl ?_
    -- No task is added under an old number, so what is waited for still ranks lower.
    rintro awaited ⟨hlt, hbelow⟩
    exact ⟨hlt, fun p hp => hbelow p (hlive awaited p hp)⟩
  · rcases h.accounted i hi with ⟨p, hp⟩ | ⟨entry, hentry, hid⟩
    · rcases hkept i p hp with hlisted | hover
      · exact Or.inl ⟨p, hlisted⟩
      · exact Or.inr hover
    · exact Or.inr ⟨entry, hended hentry, hid⟩

/-- The active task ends. -/
theorem finish (h : m.Orderly inv rank (some (id, pool))) (ending : Ending R) :
    (m.finish id ending).Orderly inv rank none := by
  refine h.relist ?_ ?_ (List.subset_cons_self _ _) fun task htask => Or.inl htask
  · rintro i p (hnone | hlisted)
    · exact absurd hnone (by simp)
    · exact Or.inr hlisted
  · rintro i p (hactive | hlisted)
    · obtain ⟨rfl, rfl⟩ : id = i ∧ pool = p := by simpa using hactive
      exact Or.inr ⟨(id, ending), List.mem_cons_self, rfl⟩
    · exact Or.inl (Or.inr hlisted)

/-- The active task waits. -/
theorem park {wait : Wait W ι R} (h : m.Orderly inv rank (some (id, pool)))
    (hwait : wait.Orderly inv rank (rank pool) m.world
      (m.Below rank (some (id, pool)) (rank pool))) :
    (m.park ⟨id, pool, wait⟩).Orderly inv rank none := by
  refine h.relist ?_ ?_ (List.Subset.refl _) fun task htask => ?_
  · rintro i p (hnone | ⟨task, htask, rfl, rfl⟩)
    · exact absurd hnone (by simp)
    · rcases List.mem_append.mp htask with hold | hnew
      · exact Or.inr ⟨task, hold, rfl, rfl⟩
      · rw [List.mem_singleton.mp hnew]
        exact Or.inl rfl
  · rintro i p (hactive | ⟨task, htask, hid⟩)
    · obtain ⟨rfl, rfl⟩ : id = i ∧ pool = p := by simpa using hactive
      exact Or.inl (Or.inr ⟨_, List.mem_append_right _ List.mem_cons_self, rfl, rfl⟩)
    · exact Or.inl (Or.inr ⟨task, List.mem_append_left _ htask, hid⟩)
  · rcases List.mem_append.mp htask with hold | hnew
    · exact Or.inl hold
    · rw [List.mem_singleton.mp hnew]
      exact Or.inr hwait

/-- A waiting task becomes the active one. -/
theorem take {task : Task W ι R} {rest : List (Task W ι R)} (h : m.Orderly inv rank none)
    (hperm : m.tasks.Perm (task :: rest)) :
    Orderly inv rank (some (task.id, task.pool)) { m with tasks := rest } := by
  have hmem : ∀ t, t ∈ m.tasks ↔ t = task ∨ t ∈ rest := fun t => by
    rw [hperm.mem_iff, List.mem_cons]
  refine h.relist ?_ ?_ (List.Subset.refl _) fun t ht => Or.inl ((hmem t).mpr (Or.inr ht))
  · rintro i p (hactive | ⟨t, ht, hid⟩)
    · obtain ⟨hi, hp⟩ : task.id = i ∧ task.pool = p := by simpa using hactive
      exact Or.inr ⟨task, (hmem task).mpr (Or.inl rfl), hi, hp⟩
    · exact Or.inr ⟨t, (hmem t).mpr (Or.inr ht), hid⟩
  · rintro i p (hnone | ⟨t, ht, rfl, rfl⟩)
    · exact absurd hnone (by simp)
    · rcases (hmem t).mp ht with rfl | ht
      · exact Or.inl (Or.inl rfl)
      · exact Or.inl (Or.inr ⟨t, ht, rfl, rfl⟩)

/-- An orderly task is started. -/
theorem spawn {body : Process W ι R} (h : m.Orderly inv rank active)
    (hbody : body.Orderly inv rank (rank pool) m.world) :
    (m.spawn pool body).2.Orderly inv rank active := by
  unfold Machine.spawn
  split
  · exact h
  · let task : Task W ι R := ⟨m.nextId, pool, .permit body⟩
    let m' : Machine W ι R := { m with tasks := m.tasks ++ [task], nextId := m.nextId + 1 }
    show m'.Orderly inv rank active
    -- The number is new, so nothing that is waited for is the new task.
    have hlive : ∀ i p, m'.Live active i p → m.Live active i p ∨ (i = m.nextId ∧ p = pool) := by
      rintro i p (hactive | ⟨t, ht, rfl, rfl⟩)
      · exact Or.inl (Or.inl hactive)
      · rcases List.mem_append.mp ht with hold | hnew
        · exact Or.inl (Or.inr ⟨t, hold, rfl, rfl⟩)
        · rw [List.mem_singleton.mp hnew]
          exact Or.inr ⟨rfl, rfl⟩
    have hallowed : ∀ n i, m.Below rank active n i → m'.Below rank active n i := by
      rintro n i ⟨hlt, hbelow⟩
      refine ⟨Nat.lt_succ_of_lt hlt, fun p hp => ?_⟩
      rcases hlive i p hp with hold | ⟨rfl, _⟩
      · exact hbelow p hold
      · exact absurd hlt (Nat.lt_irrefl _)
    refine ⟨h.world, h.permits, fun t ht => ?_, fun i p hi => ?_, fun i hi => ?_⟩
    · rcases List.mem_append.mp ht with hold | hnew
      · exact (h.waits t hold).mono le_rfl (hallowed _)
      · rw [List.mem_singleton.mp hnew]
        exact hbody
    · rcases hlive i p hi with hold | ⟨rfl, _⟩
      · exact Nat.lt_succ_of_lt (h.issued i p hold)
      · exact Nat.lt_succ_self _
    · rcases Nat.lt_succ_iff_lt_or_eq.mp hi with hlt | rfl
      · rcases h.accounted i hlt with ⟨p, hactive | ⟨t, ht, hid⟩⟩ | hended
        · exact Or.inl ⟨p, Or.inl hactive⟩
        · exact Or.inl ⟨p, Or.inr ⟨t, List.mem_append_left _ ht, hid⟩⟩
        · exact Or.inr hended
      · exact Or.inl ⟨pool, Or.inr ⟨task, List.mem_append_right _ List.mem_cons_self, rfl, rfl⟩⟩

/-- A task that has just been started may be waited for at a level above its pool. -/
theorem below_spawn {body : Process W ι R} {task : Nat} (h : m.Orderly inv rank active)
    (hrank : rank pool < level) (htask : (m.spawn pool body).1 = some task) :
    (m.spawn pool body).2.Below rank active level task := by
  unfold Machine.spawn at htask ⊢
  split at htask
  · exact absurd htask (by simp)
  · rename_i hopen
    obtain rfl := Option.some.inj htask
    rw [if_neg hopen]
    refine ⟨Nat.lt_succ_self _, ?_⟩
    rintro p (hactive | ⟨t, ht, hid, rfl⟩)
    · exact absurd (h.issued _ p (Or.inl hactive)) (Nat.lt_irrefl _)
    · rcases List.mem_append.mp ht with hold | hnew
      · exact absurd (h.issued _ _ (Or.inr ⟨t, hold, hid, rfl⟩)) (Nat.lt_irrefl _)
      · rw [List.mem_singleton.mp hnew]
        exact hrank

/-- What every member of a list keeps is kept by all of them in turn. -/
theorem foldl {f : Machine W ι R → ι → Machine W ι R}
    (hf : ∀ (x : Machine W ι R) (i : ι), x.Orderly inv rank none → x.Follows inv rank (f x i))
    (pools : List ι) (h : m.Orderly inv rank none) : m.Follows inv rank (pools.foldl f m) := by
  induction pools generalizing m with
  | nil => exact ⟨h, .refl m⟩
  | cons i pools ih =>
      have hfirst := hf m i h
      exact hfirst.onward.follows (ih hfirst.orderly)

variable [DecidableEq ι]

theorem updatePool (h : m.Orderly inv rank active) {f : Pool → Pool}
    (hf : ∀ p, (f p).permits = p.permits) : (m.updatePool pool f).Orderly inv rank active := by
  refine ⟨h.world, fun i => ?_, h.waits, h.issued, h.accounted⟩
  show 0 < (if i = pool then f (m.pools i) else m.pools i).permits
  split
  · rw [hf]
    exact h.permits i
  · exact h.permits i

theorem close (h : m.Orderly inv rank none) (pool : ι) : m.Follows inv rank (m.close pool) :=
  ⟨h.updatePool (f := fun p => { p with closed := true }) fun _ => rfl,
    Nat.le_refl _, le_rfl, Nat.le_refl _⟩

/-- A pool's tasks that have not ended are cancelled. -/
theorem cancel (h : m.Orderly inv rank none) (pool : ι) : m.Follows inv rank (m.cancel pool) := by
  refine ⟨updatePool (f := fun p => { p with leftover := 0 })
    (h.relist ?_ ?_ (List.subset_append_right _ _) ?_) fun _ => rfl,
    Nat.le_refl _, le_rfl, Nat.le_refl _⟩
  · rintro i p (hnone | ⟨task, htask, hid⟩)
    · exact absurd hnone (by simp)
    · exact Or.inr ⟨task, (List.mem_filter.mp htask).1, hid⟩
  · rintro i p (hnone | ⟨task, htask, rfl, rfl⟩)
    · exact absurd hnone (by simp)
    · by_cases hpool : task.pool = pool
      · refine Or.inr ⟨(task.id, .cancelled), List.mem_append_left _ ?_, rfl⟩
        exact List.mem_map.mpr ⟨task, List.mem_filter.mpr ⟨htask, by simpa using hpool⟩, rfl⟩
      · refine Or.inl (Or.inr ⟨task, List.mem_filter.mpr ⟨htask, ?_⟩, rfl, rfl⟩)
        simpa using hpool
  · exact fun task htask => Or.inl (List.mem_filter.mp htask).1

/-- An active orderly task goes on until it waits or ends. -/
theorem proceed {p : Process W ι R} (hp : p.Orderly inv rank level w) :
    ∀ m : Machine W ι R, m.Orderly inv rank (some (id, pool)) → w ≤ m.world → level = rank pool →
      m.Follows inv rank (Machine.proceed id pool p m) := by
  -- The machine is general, since it changes with every action; its world is never before the one
  -- from which the process is orderly.
  induction hp with
  | done => exact fun m h _ _ => ⟨h.finish _, onward_finish m _ _⟩
  | act heffect _ ih =>
      intro m h hle hlevel
      obtain ⟨hon, hinv⟩ := heffect m.world hle h.world m.now
      have hafter := ih m.world hle h.world m.now _ (h.withWorld hon hinv) le_rfl hlevel
      exact (onward_withWorld hon).follows hafter
  | sleep hnext ih =>
      intro m h hle hlevel
      unfold Machine.proceed
      split
      · exact ih m h hle hlevel
      · exact ⟨h.park (hlevel ▸ hnext.mono hle), onward_park m _⟩
  | pause hnext ih =>
      intro m h hle hlevel
      unfold Machine.proceed
      split
      · exact ih true m h hle hlevel
      · split
        · exact ih false m h hle hlevel
        · exact ⟨h.park fun interrupted => hlevel ▸ (hnext interrupted).mono hle, onward_park m _⟩
  | @start _ target body next _ hbody _ _ ih =>
      intro m h hle hlevel
      have hon := onward_spawn m target body
      exact hon.follows (ih _ _ (h.spawn (hbody.mono hle)) (le_trans hle hon.world) hlevel)
  | @call _ target body next k _ hrank hbody _ hjoin hk _ ihnone ih =>
      intro m h hle hlevel
      have hon := onward_spawn m target body
      have hspawn := h.spawn (hbody.mono hle)
      have hworld := le_trans hle hon.world
      refine hon.follows ?_
      unfold Machine.proceed
      cases htask : (m.spawn target body).1 with
      | none => exact ihnone _ hspawn hworld hlevel
      | some task =>
          rw [hjoin task, Machine.proceed]
          split
          · rename_i ending _
            exact ih task ending.result? _ hspawn hworld hlevel
          · -- The task waits for the one that it has just started, which ranks lower.
            refine ⟨hspawn.park ⟨?_, fun result => ?_⟩, onward_park _ _⟩
            · exact hlevel ▸ h.below_spawn hrank htask
            · exact hlevel ▸ (hk task result).mono hworld

/-- A task that waited goes on. -/
theorem resume {task : Task W ι R} {rest : List (Task W ι R)} (h : m.Orderly inv rank none)
    (hperm : m.tasks.Perm (task :: rest)) (now : Nat) :
    Follows inv rank { m with now := now, tasks := rest }
      (Machine.resume task { m with now := now, tasks := rest }) := by
  have htaken := (h.take hperm).withNow now
  have hwait := h.waits task (hperm.mem_iff.mpr List.mem_cons_self)
  have hgo : ∀ p : Process W ι R, p.Orderly inv rank (rank task.pool) m.world →
      Follows inv rank { m with now := now, tasks := rest }
        (Machine.proceed task.id task.pool p { m with now := now, tasks := rest }) :=
    fun p hp => proceed hp _ htaken le_rfl rfl
  unfold Machine.resume
  cases hkind : task.wait with
  | permit body =>
      rw [hkind] at hwait
      exact hgo body hwait
  | moment due next =>
      rw [hkind] at hwait
      exact hgo next hwait
  | signal due next =>
      rw [hkind] at hwait
      exact hgo _ (hwait _)
  | ending awaited next =>
      rw [hkind] at hwait
      exact hgo _ (hwait.2 _)

theorem step {limit : Option Nat} (h : m.Orderly inv rank none) (hstep : m.step? limit = some m') :
    m.Follows inv rank m' := by
  unfold step? at hstep
  split at hstep
  · exact absurd hstep (by simp)
  · rename_i moment task rest hearliest
    split at hstep
    · obtain rfl := Option.some.inj hstep
      have hon : m.Onward { m with now := moment, tasks := rest } :=
        ⟨now_le_wakeTime (time_of_earliest hearliest), le_rfl, Nat.le_refl _⟩
      exact hon.follows (h.resume (perm_of_earliest hearliest) moment)
    · exact absurd hstep (by simp)

theorem drive (h : m.Orderly inv rank none) (enough : Machine W ι R → Bool) (limit : Option Nat) :
    m.Follows inv rank (m.drive enough limit) := by
  refine (drive_induction (P := m.Follows inv rank) ?_ ⟨h, .refl m⟩).1
  intro x x' hx hstep
  exact hx.onward.follows (hx.orderly.step hstep)

theorem settle (h : m.Orderly inv rank none) : m.Follows inv rank m.settle :=
  h.drive _ _

theorem advanceTo (h : m.Orderly inv rank none) (moment : Nat) :
    m.Follows inv rank (m.advanceTo moment) := by
  have hafter := h.drive (fun _ => false) (some moment)
  exact ⟨hafter.orderly.withNow _, Nat.le_trans hafter.onward.now (Nat.le_max_left _ _),
    hafter.onward.world, hafter.onward.nextId⟩

theorem awaitIdle (h : m.Orderly inv rank none) (pools : List ι) (ms : Nat) :
    m.Follows inv rank (m.awaitIdle pools ms) := by
  have hafter := h.drive (allIdle pools) (some (m.now + ms))
  unfold Machine.awaitIdle
  dsimp only
  split
  · exact hafter
  · exact ⟨hafter.orderly.withNow _, Nat.le_add_right _ _, hafter.onward.world,
      hafter.onward.nextId⟩

theorem shutdown (h : m.Orderly inv rank none) (pools : List ι) (timeout : Nat) :
    m.Follows inv rank (m.shutdown pools timeout).2 := by
  have hclosed := h.foldl (fun x i hx => hx.close i) pools
  have hwaited := hclosed.onward.follows (hclosed.orderly.awaitIdle pools timeout)
  unfold Machine.shutdown
  dsimp only
  split
  · exact hwaited
  · have hlast := (onward_raiseInterrupt _).follows
      (hwaited.orderly.raiseInterrupt.awaitIdle pools grace)
    have hcancelled := hlast.orderly.foldl (fun x i hx => hx.cancel i)
    exact hwaited.onward.follows (hlast.onward.follows (hcancelled _))

end Orderly

end Machine

end MenuActions.Schedule
