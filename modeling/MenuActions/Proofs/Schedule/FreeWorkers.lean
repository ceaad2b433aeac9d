import Mathlib.Data.List.Perm.Subperm
import MenuActions.Proofs.Schedule.Permits
import MenuActions.Proofs.Schedule.Timeline

/-!
# Free workers

A pool gives its permits in the order in which its tasks were started, so a task waits for its permit only
as long as the tasks before it take all permits.  When fewer of them are in flight than the pool has
permits, the task can go on at once, and on a punctual machine no time passes until it does.

`older` counts the tasks before it, and never grows (`older_le`); `Timeline.atOnce` says that whatever is
seen next of such a task is seen at the same moment.
-/

namespace MenuActions.Schedule

variable {W ι R : Type} [DecidableEq ι]

namespace Machine

variable {m m' : Machine W ι R} {pool : ι} {id : Nat} {given : List Nat} {event : Event W ι R}

/-- How many tasks of a pool, of those that have not ended, have numbers below a number. -/
def older (m : Machine W ι R) (pool : ι) (id : Nat) : Nat :=
  (m.tasksOf pool).countP fun task => task.id < id

/-- No task is started before those that there are. -/
theorem older_le (h : m.Step event m') (hafter : m'.Accounted []) (hid : id ≤ m.nextId) :
    m'.older pool id ≤ m.older pool id := by
  have hsubset : (((m'.tasksOf pool).filter fun task => task.id < id).map Task.id) ⊆
      ((m.tasksOf pool).filter fun task => task.id < id).map Task.id := by
    intro number hnumber
    obtain ⟨task, htask, rfl⟩ := List.mem_map.mp hnumber
    obtain ⟨hmem, hlt⟩ := List.mem_filter.mp htask
    obtain ⟨hlisted, rfl⟩ := mem_tasksOf.mp hmem
    have hbefore : ∃ old ∈ m.tasks, old.id = task.id ∧ old.pool = task.pool := by
      rcases h.origin hlisted with hold | ⟨-, hold⟩ | ⟨hnew, -⟩
      · exact ⟨task, hold, rfl, rfl⟩
      · exact hold
      · have : task.id < id := by simpa using hlt
        omega
    obtain ⟨old, hold, hsame, hpool⟩ := hbefore
    rw [← hsame] at hlt ⊢
    exact List.mem_map_of_mem (List.mem_filter.mpr ⟨mem_tasksOf.mpr ⟨hold, hpool⟩, hlt⟩)
  have hnodup : (((m'.tasksOf pool).filter fun task => task.id < id).map Task.id).Nodup :=
    hafter.nodup_tasks.sublist ((List.filter_sublist.trans List.filter_sublist).map Task.id)
  have hle := (hnodup.subperm hsubset).length_le
  rw [List.length_map, List.length_map] at hle
  rw [older, older, List.countP_eq_length_filter, List.countP_eq_length_filter]
  exact hle

/-- With fewer tasks before it than there are permits, a task that waits for its permit can go on. -/
theorem Served.ready (h : m.Served pool given []) {task : Task W ι R} (htask : task ∈ m.tasks)
    (hpool : task.pool = pool) (hqueued : task.wait.queued = true)
    (hfree : m.older pool task.id < (m.pools pool).permits) : m.wakeTime task = some m.now := by
  -- Whoever holds a permit was started before the task.
  have hholders : m.running pool ≤ m.older pool task.id := by
    rw [running_eq_countP, older, tasksOf, List.countP_filter]
    refine List.countP_mono_left fun t ht hholds => ?_
    have hboth := Task.holds_iff.mp hholds
    have hlt := h.ahead task htask hpool hqueued t.id ((h.held t ht).mpr hboth)
    simpa [hboth.1] using hlt
  rw [wakeTime_of_queued hqueued, hpool, if_pos (Nat.lt_of_le_of_lt hholders hfree)]

end Machine

open Sighting

namespace Crowd

variable {begins : Process W ι R → Prop} {changes : W → W → Prop} {c c' : Crowd W ι R}
  {log more : List (Sighting W ι R)} {pool : ι}

theorem Timeline.served {world : W} {pools : ι → Pool} {callers : List (Process W ι R)}
    (h : Timeline begins changes ⟨.start world pools, callers⟩ log c) (pool : ι) :
    (∃ given, c.machine.Served pool given []) ∧
      (c.machine.pools pool).permits = (pools pool).permits := by
  obtain ⟨events, hevents⟩ := h.reaches.trace
  exact ⟨⟨_, (Machine.Served.start world pools pool).trace hevents⟩, hevents.permits pool⟩

/-- Time stands still, or it passes and nothing else happens. -/
theorem Sees.now_cases (h : c.Sees begins changes more c') :
    c'.machine.now = c.machine.now ∨
      c.machine.now ≤ c'.machine.now ∧ c.machine.Punctual (.passes c'.machine.now) := by
  cases h with
  | turn hturn hpunctual =>
      cases hturn with
      | @goesOn other before after _ _ _ =>
          exact Or.inl (Machine.wentOn_resume other { c.machine with tasks := before ++ after }).now
      | passes hnow => exact Or.inr ⟨hnow, hpunctual⟩
      | interrupts =>
          unfold Machine.raiseInterrupt
          split <;> exact Or.inl rfl
      | closes _ => exact Or.inl rfl
      | drops _ => exact absurd hpunctual id
      | clears _ => exact Or.inl rfl
  | begun _ => exact Or.inl rfl
  | advances _ hadvances =>
      cases hadvances with
      | spawn target body next =>
          unfold Machine.spawn
          split <;> exact Or.inl rfl
      | _ => exact Or.inl rfl
  | leaves _ => exact Or.inl rfl
  | host _ => exact Or.inl rfl

theorem Sees.now_le (h : c.Sees begins changes more c') : c.machine.now ≤ c'.machine.now :=
  h.now_cases.elim (fun hsame => Nat.le_of_eq hsame.symm) And.left

/-- While a task can go on, no time passes. -/
theorem Sees.now_eq (h : c.Sees begins changes more c') {task : Task W ι R}
    (htask : task ∈ c.machine.tasks) (hready : c.machine.wakeTime task = some c.machine.now) :
    c'.machine.now = c.machine.now := by
  rcases h.now_cases with hsame | ⟨hle, hpunctual⟩
  · exact hsame
  · exact Nat.le_antisymm (hpunctual task htask _ hready) hle

omit [DecidableEq ι] in
theorem moment_of_changes {m m' : Machine W ι R} {seen : Sighting W ι R} (h : seen ∈ m.changes m') :
    seen.moment = m'.now := by
  rcases List.mem_append.mp h with harrival | hdeparture
  · obtain ⟨task, -, htask⟩ := List.mem_filterMap.mp harrival
    unfold Task.arrival? at htask
    split at htask
    · rw [← Option.some.inj htask]
    · exact absurd htask (by simp)
  · obtain ⟨entry, -, rfl⟩ := List.mem_map.mp hdeparture
    rfl

/-- What is seen of something that happens is seen at the moment at which it is over. -/
theorem Sees.moment (h : c.Sees begins changes more c') {seen : Sighting W ι R} (hseen : seen ∈ more) :
    seen.moment = c'.machine.now := by
  cases h with
  | @turn event m hturn _ =>
      cases hturn with
      | @goesOn task before after _ _ _ =>
          rcases List.mem_append.mp hseen with hown | hother
          · have hnow := (Machine.wentOn_resume task { c.machine with tasks := before ++ after }).now
            exact (Machine.mem_going hown).1.trans hnow.symm
          · exact moment_of_changes hother
      | _ => exact moment_of_changes hseen
  | begun _ => exact absurd hseen List.not_mem_nil
  | advances _ _ => exact moment_of_changes hseen
  | leaves _ => exact absurd hseen List.not_mem_nil
  | host _ => exact absurd hseen List.not_mem_nil

/-- A log is in the order of time. -/
theorem Timeline.sorted {first : Crowd W ι R} (h : Timeline begins changes first log c) :
    log.Pairwise (fun a b => a.moment ≤ b.moment) ∧ ∀ seen ∈ log, seen.moment ≤ c.machine.now := by
  induction h with
  | nil => exact ⟨List.Pairwise.nil, fun _ hmem => absurd hmem List.not_mem_nil⟩
  | snoc _ hsees ih =>
      obtain ⟨hsorted, hpast⟩ := ih
      refine ⟨List.pairwise_append.mpr ⟨hsorted, ?_, fun a ha b hb => ?_⟩,
        List.forall_mem_append.mpr ⟨fun a ha => ?_, fun b hb => Nat.le_of_eq (hsees.moment hb)⟩⟩
      · refine List.pairwise_of_forall_mem_list fun a ha b hb => ?_
        rw [hsees.moment ha, hsees.moment hb]
      · rw [hsees.moment hb]
        exact Nat.le_trans (hpast a ha) hsees.now_le
      · exact Nat.le_trans (hpast a ha) hsees.now_le

/-- What is seen of a task after it was started is seen later, or at the same moment. -/
theorem Timeline.le_of_mem {first : Crowd W ι R} (h : Timeline begins changes first log c) {id : Nat}
    {earlier later : Nat × Sight W ι R} {rest : List (Nat × Sight W ι R)}
    (hlog : of id log = earlier :: rest) (hmem : later ∈ rest) : earlier.1 ≤ later.1 := by
  have hsorted : (of id log).Pairwise fun a b => a.1 ≤ b.1 := by
    refine h.sorted.1.filterMap _ fun a b hle entry hentry other hother => ?_
    split at hentry
    · split at hother
      · rw [← Option.some.inj hentry, ← Option.some.inj hother]
        exact hle
      · exact absurd hother (by simp)
    · exact absurd hentry (by simp)
  rw [hlog] at hsorted
  exact (List.pairwise_cons.mp hsorted).1 later hmem

/-! ## At once -/

/-- Whatever is seen next of a task is seen at some moment, which has not passed while the task still waits
for its permit. -/
structure AtOnce (now id : Nat) (more : List (Sighting W ι R)) (m : Machine W ι R) : Prop where
  waits : ∀ task ∈ m.tasks, task.id = id → task.wait.queued = true → m.now = now
  next : ∀ entry ∈ (of id more).head?, entry.1 = now

section Start

variable {world : W} {pools : ι → Pool} {callers : List (Process W ι R)}

/-- The tasks before one that has been started get fewer. -/
theorem Timeline.older_le (h : Timeline begins changes ⟨.start world pools, callers⟩ log c) (pool : ι)
    (hmore : Timeline begins changes c more c') {id : Nat} (hid : id < c.machine.nextId) :
    id < c'.machine.nextId ∧ c'.machine.older pool id ≤ c.machine.older pool id := by
  induction hmore with
  | nil => exact ⟨hid, Nat.le_refl _⟩
  | @snoc more last middle c'' hmiddle hsees ih =>
      have hlt := ih.1
      rcases hsees.step.machine with hsame | ⟨event, hevent⟩
      · rw [hsame]
        exact ih
      · have hafter := ((h.trans hmiddle).snoc hsees).kept.accounted
        exact ⟨Nat.lt_of_lt_of_le hlt hevent.nextId_le,
          Nat.le_trans (Machine.older_le hevent hafter (Nat.le_of_lt hlt)) ih.2⟩

/-- No time passes while a task waits for its permit behind fewer tasks than its pool has permits. -/
theorem Timeline.now_eq (h : Timeline begins changes ⟨.start world pools, callers⟩ log c)
    (hsees : c.Sees begins changes more c') {task : Task W ι R} (htask : task ∈ c.machine.tasks)
    (hqueued : task.wait.queued = true)
    (hfree : c.machine.older task.pool task.id < (pools task.pool).permits) :
    c'.machine.now = c.machine.now := by
  obtain ⟨⟨given, hserved⟩, hpermits⟩ := h.served task.pool
  exact hsees.now_eq htask (hserved.ready htask rfl hqueued (hpermits ▸ hfree))

/-- A task that waits for its permit behind fewer tasks than its pool has permits goes on at once. -/
theorem Timeline.atOnce (h : Timeline begins changes ⟨.start world pools, callers⟩ log c)
    {task : Task W ι R} (htask : task ∈ c.machine.tasks) (hqueued : task.wait.queued = true)
    (hfree : c.machine.older task.pool task.id < (pools task.pool).permits)
    (hmore : Timeline begins changes c more c') :
    AtOnce c.machine.now task.id more c'.machine := by
  have hid := h.kept.accounted.id_lt_nextId htask
  obtain ⟨t, body, hlog⟩ := (h.kept.alive task htask).eq_of_queued hqueued
  induction hmore with
  | nil => exact ⟨fun _ _ _ _ => rfl, fun entry hentry => absurd hentry (by simp [of])⟩
  | @snoc more last middle c'' hmiddle hsees ih =>
      have hall := h.trans hmiddle
      obtain ⟨hlt, holder⟩ := h.older_le task.pool hmiddle hid
      -- Whoever waits under the number of the task is the task, and no time passes as long as it waits.
      have hstays : ∀ same ∈ middle.machine.tasks, same.id = task.id → same.wait.queued = true →
          c''.machine.now = c.machine.now := by
        intro same hsame hnumber hwaits
        have hstart : (t, .scheduled task.pool body) ∈ of same.id (log ++ more) := by
          rw [hnumber, of_append, hlog]
          exact List.mem_cons_self
        have hpool := hall.kept.pool_eq hsame hstart
        have hbehind : middle.machine.older same.pool same.id < (pools same.pool).permits := by
          rw [hpool, hnumber]
          exact Nat.lt_of_le_of_lt holder hfree
        exact (hall.now_eq hsees hsame hwaits hbehind).trans (ih.waits same hsame hnumber hwaits)
      refine ⟨fun same hsame hnumber hwaits => ?_, fun entry hentry => ?_⟩
      · have hbefore : same ∈ middle.machine.tasks := by
          rcases hsees.step.machine with hmachine | ⟨event, hevent⟩
          · rwa [hmachine] at hsame
          · exact hevent.mem_of_queued hsame hwaits (hnumber ▸ hlt)
        exact hstays same hbefore hnumber hwaits
      · rw [of_append] at hentry
        cases hseen : of task.id more with
        | cons first others =>
            rw [hseen] at hentry
            refine ih.next entry ?_
            rw [hseen]
            exact hentry
        | nil =>
            -- Nothing has been seen of the task since, so it still waits.
            have hsights : of task.id (log ++ more) = [(t, .scheduled task.pool body)] := by
              rw [of_append, hseen, List.append_nil, hlog]
            obtain ⟨same, hsame, hnumber, -, hwaits⟩ := hall.kept.queued_of_singleton hsights
            rw [hseen, List.nil_append] at hentry
            have hthen := hsees.moment (mem_of.mp (List.mem_of_mem_head? hentry))
            exact hthen.trans (hstays same hsame hnumber hwaits)

/-- A task that was started at the present moment behind fewer tasks than its pool has permits: whatever is
seen next of it is seen at this moment, and no time passes before. -/
theorem Timeline.next_at_once (h : Timeline begins changes ⟨.start world pools, callers⟩ log c)
    {id : Nat} {body : Process W ι R} (hstart : ⟨c.machine.now, id, .scheduled pool body⟩ ∈ log)
    (hfree : c.machine.older pool id < (pools pool).permits)
    (hmore : Timeline begins changes c more c') :
    ∃ sights, of id (log ++ more) = (c.machine.now, .scheduled pool body) :: sights ∧
      (∀ entry ∈ sights.head?, entry.1 = c.machine.now) ∧
      (sights = [] → c'.machine.now = c.machine.now) := by
  obtain ⟨before, hlog, -⟩ := h.kept.reads hstart
  refine ⟨before ++ of id more, by rw [of_append, hlog, List.cons_append], ?_⟩
  cases before with
  | cons first rest =>
      -- It has gone on already, at this moment.
      refine ⟨fun entry hentry => ?_, fun hnil => absurd hnil (by simp)⟩
      obtain rfl : first = entry := by simpa using hentry
      have hmem : ⟨first.1, id, first.2⟩ ∈ log := mem_of.mp (by simp [hlog])
      exact Nat.le_antisymm (h.sorted.2 _ hmem) (h.le_of_mem hlog List.mem_cons_self)
  | nil =>
      obtain ⟨task, htask, rfl, rfl, hqueued⟩ := h.kept.queued_of_singleton hlog
      have honce := h.atOnce htask hqueued hfree hmore
      refine ⟨honce.next, fun hnil => ?_⟩
      have hsights : of task.id (log ++ more) = [(c.machine.now, .scheduled task.pool body)] := by
        rw [of_append, hlog, List.singleton_append]
        exact congrArg _ hnil
      obtain ⟨same, hsame, hnumber, -, hwaits⟩ := (h.trans hmore).kept.queued_of_singleton hsights
      exact honce.waits same hsame hnumber hwaits

end Start

end Crowd

end MenuActions.Schedule
