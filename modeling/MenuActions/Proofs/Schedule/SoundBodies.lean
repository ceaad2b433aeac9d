import MenuActions.Proofs.Schedule.Timeline

/-!
# Sound processes

A process is sound when it never breaks down, when every task that it starts on a pool is of the kind that
is right for the pool, and when these tasks are sound too.

In a crowd whose processes are sound, every task that waits is (`Crowd.Sound.reaches`), and so every task
that is seen to start is of the right kind (`Timeline.scheduled_sound`).
-/

namespace MenuActions.Schedule

variable {W ι R : Type} {kind : ι → Process W ι R → Prop}

/-- A process never breaks down, and the tasks that it starts are of a kind, here and in what they start
themselves. -/
def Process.Sound (kind : ι → Process W ι R → Prop) : Process W ι R → Prop
  | .done _ => True
  | .crash => False
  | .act _ next => ∀ w, (next w).Sound kind
  | .sleep _ next => next.Sound kind
  | .pause _ next => ∀ interrupted, (next interrupted).Sound kind
  | .spawn pool body next => (kind pool body ∧ body.Sound kind) ∧ ∀ task, (next task).Sound kind
  | .join _ next => ∀ result, (next result).Sound kind

namespace Process.Sound

theorem bind {p : Process W ι R} {k : R → Process W ι R} (hp : p.Sound kind)
    (hk : ∀ result, (k result).Sound kind) : (p.bind k).Sound kind := by
  induction p with
  | done result => exact hk result
  | crash => exact absurd hp id
  | act effect next ih => exact fun w => ih w (hp w)
  | sleep ms next ih => exact ih hp
  | pause ms next ih => exact fun interrupted => ih interrupted (hp interrupted)
  | spawn pool body next _ ih => exact ⟨hp.1, fun task => ih task (hp.2 task)⟩
  | join task next ih => exact fun result => ih result (hp result)

theorem sequence {ps : List (Process W ι R)} {k : List R → Process W ι R}
    (hps : ∀ p ∈ ps, p.Sound kind) (hk : ∀ results, (k results).Sound kind) :
    (Process.sequence ps k).Sound kind := by
  induction ps generalizing k with
  | nil => exact hk []
  | cons p ps ih =>
      obtain ⟨hp, hrest⟩ := List.forall_mem_cons.mp hps
      exact hp.bind fun result => ih hrest fun results => hk (result :: results)

/-- A sound process stays sound, and in particular it does not come to break down. -/
theorem timed {now last : Nat} {p q : Process W ι R} {trail : List (Nat × Deed W ι R)}
    (hp : p.Sound kind) (h : p.Timed now trail last q) : q.Sound kind := by
  induction h with
  | rest now p => exact hp
  | act w _ ih => exact ih (hp w)
  | sleep _ ih => exact ih hp
  | pause interrupted _ _ _ ih => exact ih (hp interrupted)
  | spawn task _ ih => exact ih (hp.2 task)
  | join result _ _ ih => exact ih (hp result)

end Process.Sound

/-- What goes on after a wait is sound; a task that has not started is of the kind of its pool. -/
def Wait.Sound (kind : ι → Process W ι R → Prop) (pool : ι) : Wait W ι R → Prop
  | .permit body => kind pool body ∧ body.Sound kind
  | .moment _ next => next.Sound kind
  | .signal _ next => ∀ interrupted, (next interrupted).Sound kind
  | .ending _ next => ∀ result, (next result).Sound kind

/-! ## Machines -/

namespace Machine

/-- Every task that waits is sound. -/
def Sound (kind : ι → Process W ι R → Prop) (m : Machine W ι R) : Prop :=
  ∀ task ∈ m.tasks, task.wait.Sound kind task.pool

namespace Sound

variable {m m' : Machine W ι R}

theorem park (h : m.Sound kind) {task : Task W ι R} (htask : task.wait.Sound kind task.pool) :
    (m.park task).Sound kind :=
  List.forall_mem_append.mpr ⟨h, List.forall_mem_singleton.mpr htask⟩

theorem spawn (h : m.Sound kind) {pool : ι} {body : Process W ι R}
    (hbody : kind pool body ∧ body.Sound kind) : (m.spawn pool body).2.Sound kind := by
  unfold Machine.spawn
  split
  · exact h
  · exact List.forall_mem_append.mpr ⟨h, List.forall_mem_singleton.mpr hbody⟩

variable [DecidableEq ι]

theorem proceed (id : Nat) (pool : ι) {p : Process W ι R} (hp : p.Sound kind) :
    ∀ m : Machine W ι R, m.Sound kind → (Machine.proceed id pool p m).Sound kind := by
  induction p with
  | done result => exact fun m h => h
  | crash => exact absurd hp fun hfalse => hfalse
  | act effect next ih => exact fun m h => ih m.world (hp m.world) _ h
  | sleep ms next ih =>
      intro m h
      unfold Machine.proceed
      split
      · exact ih hp m h
      · exact h.park hp
  | pause ms next ih =>
      intro m h
      unfold Machine.proceed
      split
      · exact ih true (hp true) m h
      · split
        · exact ih false (hp false) m h
        · exact h.park hp
  | spawn target body next _ ih => exact fun m h => ih _ (hp.2 _) _ (h.spawn hp.1)
  | join target next ih =>
      intro m h
      unfold Machine.proceed
      split
      · exact ih _ (hp _) m h
      · exact h.park hp

theorem resume (h : m.Sound kind) {task : Task W ι R} (htask : task.wait.Sound kind task.pool) :
    (Machine.resume task m).Sound kind := by
  obtain ⟨id, pool, wait⟩ := task
  cases wait with
  | permit body => exact proceed id pool htask.2 m h
  | moment due next => exact proceed id pool htask m h
  | signal due next => exact proceed id pool (htask _) m h
  | ending awaited next => exact proceed id pool (htask _) m h

theorem turn {event : Event W ι R} (h : m.Sound kind) (hturn : m.Turn event m') : m'.Sound kind := by
  cases hturn with
  | @goesOn task before after htasks _ _ =>
      have hothers : Sound kind { m with tasks := before ++ after } :=
        fun t ht => h t ((sublist_of_eq htasks).subset ht)
      exact hothers.resume (h task (by simp [htasks]))
  | passes _ => exact h
  | interrupts =>
      rw [Sound, tasks_raiseInterrupt]
      exact h
  | closes _ => exact h
  | drops htasks => exact fun t ht => h t ((sublist_of_eq htasks).subset ht)
  | clears _ => exact fun t ht => h t (List.mem_filter.mp ht).1

omit [DecidableEq ι] in
theorem advances {p p' : Process W ι R} (h : m.Sound kind) (hp : p.Sound kind)
    (hadvances : m.Advances p p' m') : m'.Sound kind ∧ p'.Sound kind := by
  cases hadvances with
  | act effect next => exact ⟨h, hp m.world⟩
  | sleep ms next => exact ⟨h, hp⟩
  | pause ms next interrupted => exact ⟨h, hp interrupted⟩
  | spawn pool body next => exact ⟨h.spawn hp.1, hp.2 _⟩
  | join next _ => exact ⟨h, hp _⟩

end Sound

end Machine

/-! ## Crowds -/

namespace Crowd

variable {begins : Process W ι R → Prop} {changes : W → W → Prop} {c c' first : Crowd W ι R}
  {log more : List (Sighting W ι R)}

/-- The tasks of a crowd and the processes in its foreground are sound. -/
structure Sound (kind : ι → Process W ι R → Prop) (c : Crowd W ι R) : Prop where
  machine : c.machine.Sound kind
  callers : ∀ p ∈ c.callers, p.Sound kind

variable [DecidableEq ι]

/-- A step keeps a crowd sound when the processes that are begun are sound. -/
theorem Sound.step (h : c.Sound kind) (hbegins : ∀ p, begins p → p.Sound kind)
    (hstep : Step begins changes c c') : c'.Sound kind := by
  cases hstep with
  | turn hturn => exact ⟨h.machine.turn hturn, h.callers⟩
  | begun hp => exact ⟨h.machine, List.forall_mem_cons.mpr ⟨hbegins _ hp, h.callers⟩⟩
  | @advances p p' before after m hcallers hadvances =>
      have hcall : ∀ q ∈ before ++ p :: after, q.Sound kind := hcallers ▸ h.callers
      obtain ⟨hbefore, hrest⟩ := List.forall_mem_append.mp hcall
      obtain ⟨hp, hafter⟩ := List.forall_mem_cons.mp hrest
      obtain ⟨hmachine, hp'⟩ := h.machine.advances hp hadvances
      exact ⟨hmachine,
        List.forall_mem_append.mpr ⟨hbefore, List.forall_mem_cons.mpr ⟨hp', hafter⟩⟩⟩
  | leaves hcallers =>
      exact ⟨h.machine, fun q hq => h.callers q ((sublist_of_eq hcallers).subset hq)⟩
  | host _ => exact ⟨h.machine, h.callers⟩

theorem Sound.reaches (h : c.Sound kind) (hbegins : ∀ p, begins p → p.Sound kind)
    (hreaches : Reaches begins changes c c') : c'.Sound kind := by
  induction hreaches with
  | refl => exact h
  | tail _ hstep ih => exact ih.step hbegins hstep

/-- A task that is seen to start waits for its permit. -/
theorem Sees.mem_of_scheduled (h : c.Sees begins changes more c') {t id : Nat} {pool : ι}
    {body : Process W ι R} (hseen : ⟨t, id, .scheduled pool body⟩ ∈ more) :
    ⟨id, pool, .permit body⟩ ∈ c'.machine.tasks := by
  have harrives : ∀ {m m' : Machine W ι R}, ⟨t, id, .scheduled pool body⟩ ∈ m.changes m' →
      ⟨id, pool, .permit body⟩ ∈ m'.tasks := by
    intro m m' hmem
    rcases List.mem_append.mp hmem with harrival | hdeparture
    · obtain ⟨⟨id', pool', wait⟩, htask, hsight⟩ := List.mem_filterMap.mp harrival
      cases wait with
      | permit body' =>
          have hsame := Option.some.inj hsight
          simp only [Sighting.mk.injEq, Sight.scheduled.injEq] at hsame
          obtain ⟨-, rfl, rfl, rfl⟩ := hsame
          exact (List.mem_filter.mp htask).1
      | _ => exact absurd hsight (by simp [Task.arrival?])
    · obtain ⟨entry, -, hentry⟩ := List.mem_map.mp hdeparture
      exact absurd hentry (by simp)
  cases h with
  | @turn event m _ _ =>
      cases event with
      | goesOn task =>
          rcases List.mem_append.mp hseen with hown | hother
          · obtain ⟨-, -, hpermit | ⟨deed, hdeed⟩⟩ := Machine.mem_going hown
            · exact absurd hpermit (by simp)
            · exact absurd hdeed (by simp)
          · exact harrives hother
      | _ => exact harrives hseen
  | begun _ => exact absurd hseen List.not_mem_nil
  | advances _ _ => exact harrives hseen
  | leaves _ => exact absurd hseen List.not_mem_nil
  | host _ => exact absurd hseen List.not_mem_nil

/-- In a sound crowd, every task that is seen to start is of the kind of its pool, and sound. -/
theorem Timeline.scheduled_sound (h : Timeline begins changes first log c) (hfirst : first.Sound kind)
    (hbegins : ∀ p, begins p → p.Sound kind) {t id : Nat} {pool : ι} {body : Process W ι R}
    (hseen : ⟨t, id, .scheduled pool body⟩ ∈ log) : kind pool body ∧ body.Sound kind := by
  induction h with
  | nil => exact absurd hseen List.not_mem_nil
  | @snoc log more middle last hmiddle hsees ih =>
      rcases List.mem_append.mp hseen with hold | hnew
      · exact ih hold
      · have hsound := hfirst.reaches hbegins (hmiddle.snoc hsees).reaches
        exact hsound.machine _ (hsees.mem_of_scheduled hnew)

end Crowd

end MenuActions.Schedule
