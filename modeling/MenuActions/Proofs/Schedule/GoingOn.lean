import MenuActions.Proofs.Schedule.Course
import MenuActions.Proofs.Schedule.Crowd

/-!
# Going on

What a task leaves behind when it goes on until it waits again or ends, and a process in the foreground
when it does its next thing.  `Process.GoesOn` says it of the process alone: it has come a part of its
course, its deeds lead from one world to another, and behind it stand the waits of the tasks that it has
started and at most one of its own.

`goesOn_resume` and `goesOn_advances` are the two cases.
-/

namespace MenuActions.Schedule

variable {W ι R : Type}

/-- Some deeds lead from one world to another: every change finds the world that the one before it has
left. -/
inductive Leads : W → List (Deed W ι R) → W → Prop
  | nil (w : W) : Leads w [] w
  | changes {before after last : W} {trail : List (Deed W ι R)} : Leads after trail last →
      Leads before (.changes before after :: trail) last
  | starts {first last : W} {body : Process W ι R} {trail : List (Deed W ι R)} :
      Leads first trail last → Leads first (.starts body :: trail) last

theorem leads_append {first last : W} {trail more : List (Deed W ι R)} :
    Leads first (trail ++ more) last ↔ ∃ middle, Leads first trail middle ∧ Leads middle more last := by
  constructor
  · intro h
    induction trail generalizing first with
    | nil => exact ⟨first, .nil first, h⟩
    | cons deed trail ih =>
        cases h with
        | changes h =>
            obtain ⟨middle, hfirst, hlast⟩ := ih h
            exact ⟨middle, .changes hfirst, hlast⟩
        | starts h =>
            obtain ⟨middle, hfirst, hlast⟩ := ih h
            exact ⟨middle, .starts hfirst, hlast⟩
  · rintro ⟨middle, hfirst, hlast⟩
    induction hfirst with
    | nil _ => exact hlast
    | changes _ ih => exact .changes (ih hlast)
    | starts _ ih => exact .starts (ih hlast)

/-- The world to which some deeds lead is the only one. -/
theorem Leads.unique {first last other : W} {trail : List (Deed W ι R)} (h : Leads first trail last)
    (h' : Leads first trail other) : last = other := by
  induction h with
  | nil _ =>
      cases h'
      rfl
  | changes _ ih =>
      cases h' with
      | changes h' => exact ih h'
  | starts _ ih =>
      cases h' with
      | starts h' => exact ih h'

/-- What no change touches is the same afterwards. -/
theorem Leads.same {α : Type} {f : W → α} {first last : W} {trail : List (Deed W ι R)}
    (h : Leads first trail last)
    (hsame : ∀ before after, .changes before after ∈ trail → f after = f before) :
    f last = f first := by
  induction h with
  | nil _ => rfl
  | changes _ ih =>
      rw [ih fun before after hmem => hsame before after (List.mem_cons_of_mem _ hmem)]
      exact hsame _ _ List.mem_cons_self
  | starts _ ih => exact ih fun before after hmem => hsame before after (List.mem_cons_of_mem _ hmem)

/-- A process waits in some way. -/
inductive Process.Halts : Process W ι R → Wait W ι R → Prop
  | permit (body : Process W ι R) : Halts body (.permit body)
  | moment (due : Nat) (next : Process W ι R) : Halts next (.moment due next)
  | signal (ms due : Nat) (next : Bool → Process W ι R) : Halts (.pause ms next) (.signal due next)
  | ending (task : Nat) (next : Option R → Process W ι R) : Halts (.join task next) (.ending task next)

/-- What a process that goes on has done when it waits again, or has ended: what it did, the tasks that it
has started, and its own wait, if there is one. -/
structure Process.GoesOn (p : Process W ι R) (first last : W) (trail : List (Deed W ι R))
    (bodies : List (Process W ι R)) (rested : List (Wait W ι R)) : Prop where
  course : ∃ q, p.Course (fun _ => True) trail q ∧ ∀ wait ∈ rested, q.Halts wait
  leads : Leads first trail last
  started : ∀ body ∈ bodies, .starts body ∈ trail
  alone : rested.length ≤ 1

namespace Process.GoesOn

variable {p next body : Process W ι R} {first middle last : W} {trail : List (Deed W ι R)}
  {bodies : List (Process W ι R)} {rested : List (Wait W ι R)}

/-- A process rests where it is. -/
theorem rest (w : W) (h : ∀ wait ∈ rested, p.Halts wait) (halone : rested.length ≤ 1) :
    p.GoesOn w w [] [] rested :=
  ⟨⟨p, .rest p, h⟩, .nil w, fun _ h => absurd h List.not_mem_nil, halone⟩

/-- A process does something and goes on from there. -/
theorem trans {more : List (Deed W ι R)} (hcourse : p.Course (fun _ => True) more next)
    (hleads : Leads first more middle) (h : next.GoesOn middle last trail bodies rested) :
    p.GoesOn first last (more ++ trail) bodies rested := by
  obtain ⟨q, hq, hhalts⟩ := h.course
  exact ⟨⟨q, hcourse.trans hq, hhalts⟩, leads_append.mpr ⟨middle, hleads, h.leads⟩,
    fun body hbody => List.mem_append_right _ (h.started body hbody), h.alone⟩

/-- A process starts a task and goes on. -/
theorem spawn {pool : ι} {next : Option Nat → Process W ι R} {task : Option Nat}
    (h : (next task).GoesOn first last trail bodies rested) :
    (.spawn pool body next : Process W ι R).GoesOn first last (.starts body :: trail) bodies rested :=
  h.trans (.spawn task (.rest _)) (.starts (.nil _))

/-- One of its deeds was the start of a task. -/
theorem cons (h : p.GoesOn first last trail bodies rested) (hbody : .starts body ∈ trail) :
    p.GoesOn first last trail (body :: bodies) rested :=
  ⟨h.course, h.leads, fun other hother => (List.mem_cons.mp hother).elim (fun h => h ▸ hbody)
    (h.started other), h.alone⟩

end Process.GoesOn

namespace Machine

variable [DecidableEq ι]

/-- A task that goes on leaves behind the tasks that it has started and, if it waits, its own wait. -/
theorem goesOn_proceed (id : Nat) (pool : ι) (p : Process W ι R) :
    ∀ m : Machine W ι R, ∃ trail bodies rested,
      p.GoesOn m.world (proceed id pool p m).world trail bodies rested ∧
        (proceed id pool p m).waits = m.waits ++ (bodies.map Wait.permit ++ rested) := by
  -- Every case that does not go on rests, with its own wait or without.
  have hrest : ∀ {m m' : Machine W ι R} {p : Process W ι R} (rested : List (Wait W ι R)),
      m'.world = m.world → m'.waits = m.waits ++ rested → (∀ wait ∈ rested, p.Halts wait) →
        rested.length ≤ 1 → ∃ trail bodies rested, p.GoesOn m.world m'.world trail bodies rested ∧
          m'.waits = m.waits ++ (bodies.map Wait.permit ++ rested) := by
    intro m m' p rested hworld hwaits hhalts halone
    exact ⟨[], [], rested, hworld ▸ .rest m.world hhalts halone, hwaits⟩
  have hpark : ∀ {m : Machine W ι R} {p : Process W ι R} (wait : Wait W ι R), p.Halts wait →
      ∃ trail bodies rested, p.GoesOn m.world (m.park ⟨id, pool, wait⟩).world trail bodies rested ∧
        (m.park ⟨id, pool, wait⟩).waits = m.waits ++ (bodies.map Wait.permit ++ rested) := by
    intro m p wait hhalts
    refine hrest [wait] rfl ?_ (fun other hother => ?_) (Nat.le_refl 1)
    · rw [waits, park, List.map_append]
      rfl
    · rwa [List.mem_singleton.mp hother]
  induction p with
  | done result => exact fun m => hrest [] rfl (List.append_nil _).symm (by simp) (by simp)
  | crash => exact fun m => hrest [] rfl (List.append_nil _).symm (by simp) (by simp)
  | act effect next ih =>
      intro m
      obtain ⟨trail, bodies, rested, hgoes, hwaits⟩ :=
        ih m.world { m with world := effect m.now m.world }
      exact ⟨_, bodies, rested,
        hgoes.trans (.act m.now m.world (.rest _)) (.changes (.nil _)), hwaits⟩
  | sleep ms next ih =>
      intro m
      rw [proceed]
      split
      · obtain ⟨trail, bodies, rested, hgoes, hwaits⟩ := ih m
        exact ⟨trail, bodies, rested, hgoes.trans (.sleep (.rest _)) (.nil _), hwaits⟩
      · obtain ⟨trail, bodies, rested, hgoes, hwaits⟩ := hpark (m := m) _ (.moment (m.now + ms) next)
        exact ⟨trail, bodies, rested, hgoes.trans (.sleep (.rest _)) (.nil _), hwaits⟩
  | pause ms next ih =>
      intro m
      rw [proceed]
      split
      · obtain ⟨trail, bodies, rested, hgoes, hwaits⟩ := ih true m
        exact ⟨trail, bodies, rested, hgoes.trans (.pause true trivial (.rest _)) (.nil _), hwaits⟩
      · split
        · obtain ⟨trail, bodies, rested, hgoes, hwaits⟩ := ih false m
          exact ⟨trail, bodies, rested, hgoes.trans (.pause false trivial (.rest _)) (.nil _), hwaits⟩
        · exact hpark _ (.signal ms _ next)
  | spawn target body next _ ih =>
      intro m
      rw [proceed]
      obtain ⟨trail, bodies, rested, hgoes, hwaits⟩ := ih (m.spawn target body).1 (m.spawn target body).2
      have hworld : (m.spawn target body).2.world = m.world := by
        unfold spawn
        split <;> rfl
      rw [hworld] at hgoes
      by_cases hclosed : (m.pools target).closed = true
      · refine ⟨_, bodies, rested, hgoes.spawn, ?_⟩
        rw [hwaits, spawn, if_pos hclosed]
      · refine ⟨_, body :: bodies, rested, hgoes.spawn.cons List.mem_cons_self, ?_⟩
        rw [hwaits, spawn, if_neg hclosed]
        simp [waits]
  | join target next ih =>
      intro m
      rw [proceed]
      split
      · obtain ⟨trail, bodies, rested, hgoes, hwaits⟩ := ih _ m
        exact ⟨trail, bodies, rested, hgoes.trans (.join _ (.rest _)) (.nil _), hwaits⟩
      · exact hpark _ (.ending target next)

/-- A waiting task goes on from where it has halted. -/
theorem goesOn_resume (task : Task W ι R) (m : Machine W ι R) {p : Process W ι R}
    (hp : p.Halts task.wait) : ∃ trail bodies rested,
      p.GoesOn m.world (resume task m).world trail bodies rested ∧
        (resume task m).waits = m.waits ++ (bodies.map Wait.permit ++ rested) := by
  unfold resume
  generalize task.wait = wait at hp
  cases hp with
  | permit => exact goesOn_proceed _ _ _ m
  | moment => exact goesOn_proceed _ _ _ m
  | signal ms due next =>
      obtain ⟨trail, bodies, rested, hgoes, hwaits⟩ := goesOn_proceed task.id task.pool (next m.interrupted) m
      exact ⟨trail, bodies, rested, hgoes.trans (.pause _ trivial (.rest _)) (.nil _), hwaits⟩
  | ending awaited next =>
      obtain ⟨trail, bodies, rested, hgoes, hwaits⟩ :=
        goesOn_proceed task.id task.pool (next (m.result? awaited)) m
      exact ⟨trail, bodies, rested, hgoes.trans (.join _ (.rest _)) (.nil _), hwaits⟩

omit [DecidableEq ι] in
/-- The next thing that a process in the foreground does. -/
theorem goesOn_advances {m m' : Machine W ι R} {p p' : Process W ι R} (h : m.Advances p p' m') :
    ∃ trail bodies, p.GoesOn m.world m'.world trail bodies [.permit p'] ∧
      m'.waits = m.waits ++ bodies.map Wait.permit := by
  have hrest : ∀ w, p'.GoesOn w w [] [] [Wait.permit p'] := fun w =>
    .rest w (fun wait hwait => List.mem_singleton.mp hwait ▸ .permit p') (Nat.le_refl 1)
  cases h with
  | act effect next =>
      exact ⟨_, [], (hrest _).trans (.act m.now m.world (.rest _)) (.changes (.nil _)),
        (List.append_nil _).symm⟩
  | sleep ms next =>
      exact ⟨_, [], (hrest _).trans (.sleep (.rest _)) (.nil _), (List.append_nil _).symm⟩
  | pause ms next interrupted =>
      exact ⟨_, [], (hrest _).trans (.pause interrupted trivial (.rest _)) (.nil _),
        (List.append_nil _).symm⟩
  | spawn pool body next =>
      have hworld : (m.spawn pool body).2.world = m.world := by
        unfold spawn
        split <;> rfl
      rw [hworld]
      by_cases hclosed : (m.pools pool).closed = true
      · refine ⟨_, [], (hrest m.world).spawn, ?_⟩
        rw [spawn, if_pos hclosed]
        exact (List.append_nil _).symm
      · refine ⟨_, [body], (hrest m.world).spawn.cons List.mem_cons_self, ?_⟩
        rw [spawn, if_neg hclosed]
        simp [waits]
  | join next hending =>
      exact ⟨_, [], (hrest _).trans (.join _ (.rest _)) (.nil _), (List.append_nil _).symm⟩

end Machine

end MenuActions.Schedule
