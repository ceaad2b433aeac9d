import MenuActions.Proofs.Schedule.Crowd

/-!
# What processes deliver

A process delivers results of some kind when it ends with none but these, and so do the tasks that it
starts.  It may rely on the world keeping an invariant, which it keeps itself, and on the tasks that it
waits for having ended with such results.

A machine on which everything that waits delivers such results has none but these among its ended
tasks, and whatever happens on it, this stays so: `Machine.Delivers.turn` says it of one event,
`Machine.Delivers.run` of a process in the foreground, and `Crowd.Delivers.reaches` of processes side
by side.
-/

namespace MenuActions.Schedule

variable {W ι R : Type} {inv : W → Prop} {good : R → Prop}

/-- Every result with which a process ends is of a kind, and so are those of the tasks that it starts.
-/
def Process.Delivers (inv : W → Prop) (good : R → Prop) : Process W ι R → Prop
  | .done result => good result
  | .crash => True
  | .act effect next =>
      (∀ now w, inv w → inv (effect now w)) ∧ ∀ w, inv w → (next w).Delivers inv good
  | .sleep _ next => next.Delivers inv good
  | .pause _ next => ∀ interrupted, (next interrupted).Delivers inv good
  | .spawn _ body next => body.Delivers inv good ∧ ∀ task, (next task).Delivers inv good
  | .join _ next =>
      ∀ learnt : Option R, (∀ result ∈ learnt, good result) → (next learnt).Delivers inv good

namespace Process.Delivers

theorem bind {p : Process W ι R} {k : R → Process W ι R} (hp : p.Delivers inv good)
    (hk : ∀ result, good result → (k result).Delivers inv good) : (p.bind k).Delivers inv good := by
  induction p with
  | done result => exact hk result hp
  | crash => trivial
  | act effect next ih => exact ⟨hp.1, fun w hw => ih w (hp.2 w hw)⟩
  | sleep ms next ih => exact ih hp
  | pause ms next ih => exact fun interrupted => ih interrupted (hp interrupted)
  | spawn pool body next _ ih => exact ⟨hp.1, fun task => ih task (hp.2 task)⟩
  | join task next ih => exact fun learnt hlearnt => ih learnt (hp learnt hlearnt)

theorem sequence {ps : List (Process W ι R)} {k : List R → Process W ι R}
    (hps : ∀ p ∈ ps, p.Delivers inv good)
    (hk : ∀ results, (∀ result ∈ results, good result) → (k results).Delivers inv good) :
    (Process.sequence ps k).Delivers inv good := by
  induction ps generalizing k with
  | nil => exact hk [] fun _ h => absurd h List.not_mem_nil
  | cons p ps ih =>
      obtain ⟨hp, hrest⟩ := List.forall_mem_cons.mp hps
      refine hp.bind fun result hresult => ih hrest fun results hresults => ?_
      exact hk _ (List.forall_mem_cons.mpr ⟨hresult, hresults⟩)

end Process.Delivers

/-- What goes on after a wait delivers results of a kind. -/
def Wait.Delivers (inv : W → Prop) (good : R → Prop) : Wait W ι R → Prop
  | .permit body => body.Delivers inv good
  | .moment _ next => next.Delivers inv good
  | .signal _ next => ∀ interrupted, (next interrupted).Delivers inv good
  | .ending _ next =>
      ∀ learnt : Option R, (∀ result ∈ learnt, good result) → (next learnt).Delivers inv good

/-! ## Machines -/

namespace Machine

/-- The world keeps the invariant, every task that waits delivers results of a kind, and every task
that has ended with a result has one of that kind. -/
structure Delivers (inv : W → Prop) (good : R → Prop) (m : Machine W ι R) : Prop where
  world : inv m.world
  waits : ∀ task ∈ m.tasks, task.wait.Delivers inv good
  ended : ∀ entry ∈ m.ended, ∀ result ∈ entry.2.result?, good result

namespace Delivers

variable {m m' : Machine W ι R}

theorem start {w : W} (pools : ι → Pool) (hw : inv w) :
    (Machine.start w pools : Machine W ι R).Delivers inv good :=
  ⟨hw, fun _ h => absurd h List.not_mem_nil, fun _ h => absurd h List.not_mem_nil⟩

theorem withWorld {w : W} (h : m.Delivers inv good) (hw : inv w) :
    Delivers inv good { m with world := w } :=
  ⟨hw, h.waits, h.ended⟩

theorem ending? (h : m.Delivers inv good) {id : Nat} {ending : Ending R}
    (hending : m.ending? id = some ending) : ∀ result ∈ ending.result?, good result := by
  obtain ⟨entry, hentry, rfl⟩ := Option.map_eq_some_iff.mp hending
  exact h.ended entry (List.mem_of_find?_eq_some hentry)

theorem result? (h : m.Delivers inv good) (id : Nat) : ∀ result ∈ m.result? id, good result := by
  intro result hresult
  obtain ⟨ending, hending, hmem⟩ := Option.bind_eq_some_iff.mp hresult
  exact h.ending? hending result hmem

theorem finish (h : m.Delivers inv good) (id : Nat) {ending : Ending R}
    (hending : ∀ result ∈ ending.result?, good result) : (m.finish id ending).Delivers inv good :=
  ⟨h.world, h.waits, List.forall_mem_cons.mpr ⟨hending, h.ended⟩⟩

theorem park (h : m.Delivers inv good) {task : Task W ι R} (htask : task.wait.Delivers inv good) :
    (m.park task).Delivers inv good :=
  ⟨h.world, List.forall_mem_append.mpr ⟨h.waits, List.forall_mem_singleton.mpr htask⟩, h.ended⟩

theorem spawn (h : m.Delivers inv good) (pool : ι) {body : Process W ι R}
    (hbody : body.Delivers inv good) : (m.spawn pool body).2.Delivers inv good := by
  unfold Machine.spawn
  split
  · exact h
  · exact ⟨h.world, List.forall_mem_append.mpr ⟨h.waits, List.forall_mem_singleton.mpr hbody⟩, h.ended⟩

theorem raiseInterrupt (h : m.Delivers inv good) : m.raiseInterrupt.Delivers inv good := by
  unfold Machine.raiseInterrupt
  split
  · exact h
  · exact ⟨h.world, h.waits, h.ended⟩

variable [DecidableEq ι]

theorem updatePool (h : m.Delivers inv good) (pool : ι) (f : Pool → Pool) :
    (m.updatePool pool f).Delivers inv good :=
  ⟨h.world, h.waits, h.ended⟩

/-- A task that goes on delivers what it promises, until it waits again or ends. -/
theorem proceed (id : Nat) (pool : ι) {p : Process W ι R} (hp : p.Delivers inv good) :
    ∀ m : Machine W ι R, m.Delivers inv good → (Machine.proceed id pool p m).Delivers inv good := by
  induction p with
  | done result => exact fun m h => h.finish id fun _ hlast => Option.some.inj hlast ▸ hp
  | crash => exact fun m h => (h.finish id (by simp [Ending.result?])).updatePool pool _
  | act effect next ih =>
      exact fun m h => ih m.world (hp.2 m.world h.world) _ (h.withWorld (hp.1 m.now m.world h.world))
  | sleep ms next ih =>
      intro m h
      unfold Machine.proceed
      split
      · exact ih hp m h
      · exact h.park hp
  | pause ms next ih =>
      intro m h
      unfold Machine.proceed
      split
      · exact ih true (hp true) m h
      · split
        · exact ih false (hp false) m h
        · exact h.park hp
  | spawn target body next _ ih =>
      exact fun m h => ih _ (hp.2 _) _ (h.spawn target hp.1)
  | join target next ih =>
      intro m h
      unfold Machine.proceed
      split
      · rename_i ending hending
        exact ih _ (hp _ (h.ending? hending)) m h
      · exact h.park hp

theorem resume (h : m.Delivers inv good) {task : Task W ι R} (htask : task.wait.Delivers inv good) :
    (Machine.resume task m).Delivers inv good := by
  obtain ⟨id, pool, wait⟩ := task
  cases wait with
  | permit body => exact proceed id pool htask m h
  | moment due next => exact proceed id pool htask m h
  | signal due next => exact proceed id pool (htask _) m h
  | ending awaited next => exact proceed id pool (htask _ (h.result? awaited)) m h

/-- Whatever happens on a machine, it goes on to deliver results of the kind. -/
theorem turn {event : Event W ι R} (h : m.Delivers inv good) (hturn : m.Turn event m') :
    m'.Delivers inv good := by
  cases hturn with
  | @goesOn task before after htasks _ _ =>
      have hothers : Delivers inv good { m with tasks := before ++ after } :=
        ⟨h.world, fun t ht => h.waits t ((sublist_of_eq htasks).subset ht), h.ended⟩
      exact hothers.resume (h.waits task (by simp [htasks]))
  | passes _ => exact ⟨h.world, h.waits, h.ended⟩
  | interrupts => exact h.raiseInterrupt
  | closes pool => exact h.updatePool pool _
  | @drops task before after htasks =>
      have hothers : Delivers inv good { m with tasks := before ++ after } :=
        ⟨h.world, fun t ht => h.waits t ((sublist_of_eq htasks).subset ht), h.ended⟩
      exact (hothers.finish task.id (by simp [Ending.result?])).updatePool task.pool _
  | clears pool =>
      refine ⟨h.world, fun t ht => h.waits t (List.mem_filter.mp ht).1, ?_⟩
      refine List.forall_mem_append.mpr ⟨fun entry hentry => ?_, h.ended⟩
      obtain ⟨t, _, rfl⟩ := List.mem_map.mp hentry
      simp [Ending.result?]

theorem turns (h : m.Delivers inv good) (hturns : m.Turns m') : m'.Delivers inv good := by
  obtain ⟨events, hevents⟩ := hturns
  induction hevents with
  | nil => exact h
  | snoc _ hlast ih => exact ih.turn hlast

/-- A process in the foreground ends with a result of the kind, if with any. -/
theorem run {p : Process W ι R} (hp : p.Delivers inv good) : ∀ m : Machine W ι R, m.Delivers inv good →
    (∀ result ∈ (m.run p).1, good result) ∧ (m.run p).2.Delivers inv good := by
  induction p with
  | done result => exact fun m h => ⟨fun _ hlast => Option.some.inj hlast ▸ hp, h⟩
  | crash => exact fun m h => ⟨by simp [Machine.run], h⟩
  | act effect next ih =>
      exact fun m h => ih m.world (hp.2 m.world h.world) _ (h.withWorld (hp.1 m.now m.world h.world))
  | sleep ms next ih =>
      intro m h
      refine ih hp _ ?_
      split
      · exact h
      · exact h.turns (turns_advanceTo _ m)
  | pause ms next ih =>
      intro m h
      obtain ⟨interrupted, waited, hkind, hrun, -⟩ := pause_cases ms next m
      rw [hrun]
      refine ih interrupted (hp interrupted) waited ?_
      rcases hkind with rfl | ⟨moment, rfl⟩
      · exact h
      · exact h.turns (turns_advanceTo moment m)
  | spawn pool body next _ ih => exact fun m h => ih _ (hp.2 _) _ (h.spawn pool hp.1)
  | join task next ih =>
      intro m h
      have hwaited : (m.awaitEnd task).Delivers inv good := h.turns (turns_drive _ _ m)
      exact ih _ (hp _ (hwaited.result? task)) _ hwaited

omit [DecidableEq ι] in
/-- A process in the foreground that does its next thing goes on to deliver what it promises. -/
theorem advances {p p' : Process W ι R} (h : m.Delivers inv good) (hp : p.Delivers inv good)
    (hadvances : m.Advances p p' m') : m'.Delivers inv good ∧ p'.Delivers inv good := by
  cases hadvances with
  | act effect next => exact ⟨h.withWorld (hp.1 m.now m.world h.world), hp.2 m.world h.world⟩
  | sleep ms next => exact ⟨h, hp⟩
  | pause ms next interrupted => exact ⟨h, hp interrupted⟩
  | spawn pool body next => exact ⟨h.spawn pool hp.1, hp.2 _⟩
  | join next hending => exact ⟨h, hp _ (h.ending? hending)⟩

end Delivers

end Machine

/-! ## Crowds -/

namespace Crowd

variable {begins : Process W ι R → Prop} {changes : W → W → Prop} {c c' : Crowd W ι R}

/-- The machine and every process in its foreground deliver results of a kind. -/
structure Delivers (inv : W → Prop) (good : R → Prop) (c : Crowd W ι R) : Prop where
  machine : c.machine.Delivers inv good
  callers : ∀ p ∈ c.callers, p.Delivers inv good

namespace Delivers

variable [DecidableEq ι]

/-- A step keeps this so when the processes that are begun deliver such results and the host's changes
keep the invariant. -/
theorem step (h : c.Delivers inv good) (hbegins : ∀ p, begins p → p.Delivers inv good)
    (hchanges : ∀ w w', changes w w' → inv w → inv w') (hstep : Step begins changes c c') :
    c'.Delivers inv good := by
  cases hstep with
  | turn hturn => exact ⟨h.machine.turn hturn, h.callers⟩
  | begun hp => exact ⟨h.machine, List.forall_mem_cons.mpr ⟨hbegins _ hp, h.callers⟩⟩
  | @advances p p' before after m hcallers hadvances =>
      have hp : p.Delivers inv good := h.callers p (by simp [hcallers])
      obtain ⟨hmachine, hp'⟩ := h.machine.advances hp hadvances
      refine ⟨hmachine, fun q hq => ?_⟩
      rcases List.mem_append.mp hq with hbefore | hrest
      · exact h.callers q (by simp [hcallers, hbefore])
      · rcases List.mem_cons.mp hrest with rfl | hafter
        · exact hp'
        · exact h.callers q (by simp [hcallers, hafter])
  | leaves hcallers =>
      exact ⟨h.machine, fun q hq => h.callers q ((sublist_of_eq hcallers).subset hq)⟩
  | host hworld => exact ⟨h.machine.withWorld (hchanges _ _ hworld h.machine.world), h.callers⟩

theorem reaches (h : c.Delivers inv good) (hbegins : ∀ p, begins p → p.Delivers inv good)
    (hchanges : ∀ w w', changes w w' → inv w → inv w') (hreaches : Reaches begins changes c c') :
    c'.Delivers inv good := by
  induction hreaches with
  | refl => exact h
  | tail _ hstep ih => exact ih.step hbegins hchanges hstep

end Delivers

end Crowd

end MenuActions.Schedule
