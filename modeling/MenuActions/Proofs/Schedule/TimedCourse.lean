import MenuActions.Proofs.Schedule.Course

/-!
# Timed courses

The course of a process together with the moments of its deeds.  A sleep takes exactly as long as it says,
a pause at most as long, the end of another task is waited for as long as it takes, and everything else
takes no time.

`InTurn` is the course of several processes one after another, each from the moment at which the one
before it has ended; `Timed.inTurn_of_sequence` reads it off a sequence.  `comesTo_proceed` says that a task
which goes on does so along a timed course on which no time passes, and `comesTo_resume` that waiting for
a moment is a part of it.
-/

namespace MenuActions.Schedule

variable {W ι R : Type}

namespace Process

/-- A process begins at a moment and comes to a point at another one, with what it has done on the way. -/
inductive Timed : Nat → Process W ι R → List (Nat × Deed W ι R) → Nat → Process W ι R → Prop
  | rest (now : Nat) (p : Process W ι R) : Timed now p [] now p
  | act {now last : Nat} {effect : Nat → W → W} {next : W → Process W ι R}
      {trail : List (Nat × Deed W ι R)} {q : Process W ι R} (w : W) :
      Timed now (next w) trail last q →
      Timed now (.act effect next) ((now, .changes w (effect now w)) :: trail) last q
  | sleep {now last ms : Nat} {next : Process W ι R} {trail : List (Nat × Deed W ι R)}
      {q : Process W ι R} :
      Timed (now + ms) next trail last q → Timed now (.sleep ms next) trail last q
  | pause {now woken last ms : Nat} {next : Bool → Process W ι R} {trail : List (Nat × Deed W ι R)}
      {q : Process W ι R} (interrupted : Bool) : now ≤ woken → woken ≤ now + ms →
      Timed woken (next interrupted) trail last q → Timed now (.pause ms next) trail last q
  | spawn {now last : Nat} {pool : ι} {body : Process W ι R} {next : Option Nat → Process W ι R}
      {trail : List (Nat × Deed W ι R)} {q : Process W ι R} (task : Option Nat) :
      Timed now (next task) trail last q →
      Timed now (.spawn pool body next) ((now, .starts body) :: trail) last q
  | join {now woken last task : Nat} {next : Option R → Process W ι R}
      {trail : List (Nat × Deed W ι R)} {q : Process W ι R} (result : Option R) : now ≤ woken →
      Timed woken (next result) trail last q → Timed now (.join task next) trail last q

namespace Timed

variable {now middle last : Nat} {p q : Process W ι R} {trail more : List (Nat × Deed W ι R)}

theorem le (h : Timed now p trail last q) : now ≤ last := by
  induction h with
  | rest now p => exact Nat.le_refl now
  | act w _ ih => exact ih
  | sleep _ ih => omega
  | pause interrupted hle _ _ ih => omega
  | spawn task _ ih => exact ih
  | join result hle _ ih => omega

theorem trans {r : Process W ι R} (h : Timed now p trail middle q) (h' : Timed middle q more last r) :
    Timed now p (trail ++ more) last r := by
  induction h with
  | rest now p => exact h'
  | act w _ ih => exact .act w (ih h')
  | sleep _ ih => exact .sleep (ih h')
  | pause interrupted hle hms _ ih => exact .pause interrupted hle hms (ih h')
  | spawn task _ ih => exact .spawn task (ih h')
  | join result hle _ ih => exact .join result hle (ih h')

/-- A process that has ended does nothing more, and takes no time. -/
theorem of_done {result : R} (h : Timed now (.done result) trail last q) :
    trail = [] ∧ last = now ∧ q = .done result := by
  cases h
  exact ⟨rfl, rfl, rfl⟩

/-- In the timed course of a process that is continued, either the first part is still under way, or it
has ended and the other one goes on at once. -/
theorem of_bind {k : R → Process W ι R} (h : Timed now (p.bind k) trail last q) :
    (∃ p', Timed now p trail last p' ∧ q = p'.bind k) ∨
      ∃ result before after middle, trail = before ++ after ∧ Timed now p before middle (.done result) ∧
        Timed middle (k result) after last q := by
  -- A first part that has done nothing yet may rest; otherwise its next thing is the first of the trail.
  have hrest : ∀ {now : Nat} {p : Process W ι R},
      (∃ p', Timed now p [] now p' ∧ p.bind k = p'.bind k) ∨
        ∃ result before after middle, [] = before ++ after ∧ Timed now p before middle (.done result) ∧
          Timed middle (k result) after now (p.bind k) :=
    fun {now p} => Or.inl ⟨p, .rest now p, rfl⟩
  induction p generalizing now trail with
  | done result => exact Or.inr ⟨result, [], trail, now, rfl, .rest now _, h⟩
  | crash =>
      cases h
      exact hrest
  | act effect next ih =>
      cases h with
      | rest => exact hrest
      | act w h =>
          rcases ih w h with ⟨p', hp', rfl⟩ | ⟨result, before, after, middle, rfl, hp, hk⟩
          · exact Or.inl ⟨p', .act w hp', rfl⟩
          · exact Or.inr ⟨result, _, after, middle, (List.cons_append ..).symm, .act w hp, hk⟩
  | sleep ms next ih =>
      cases h with
      | rest => exact hrest
      | sleep h =>
          rcases ih h with ⟨p', hp', rfl⟩ | ⟨result, before, after, middle, rfl, hp, hk⟩
          · exact Or.inl ⟨p', .sleep hp', rfl⟩
          · exact Or.inr ⟨result, before, after, middle, rfl, .sleep hp, hk⟩
  | pause ms next ih =>
      cases h with
      | rest => exact hrest
      | pause interrupted hle hms h =>
          rcases ih interrupted h with ⟨p', hp', rfl⟩ | ⟨result, before, after, middle, rfl, hp, hk⟩
          · exact Or.inl ⟨p', .pause interrupted hle hms hp', rfl⟩
          · exact Or.inr ⟨result, before, after, middle, rfl, .pause interrupted hle hms hp, hk⟩
  | spawn pool body next _ ih =>
      cases h with
      | rest => exact hrest
      | spawn task h =>
          rcases ih task h with ⟨p', hp', rfl⟩ | ⟨result, before, after, middle, rfl, hp, hk⟩
          · exact Or.inl ⟨p', .spawn task hp', rfl⟩
          · exact Or.inr ⟨result, _, after, middle, (List.cons_append ..).symm, .spawn task hp, hk⟩
  | join task next ih =>
      cases h with
      | rest => exact hrest
      | join result hle h =>
          rcases ih result h with ⟨p', hp', rfl⟩ | ⟨first, before, after, middle, rfl, hp, hk⟩
          · exact Or.inl ⟨p', .join result hle hp', rfl⟩
          · exact Or.inr ⟨first, before, after, middle, rfl, .join result hle hp, hk⟩

/-- A continued process that has ended has ended in both parts. -/
theorem of_bind_done {k : R → Process W ι R} {final : R}
    (h : Timed now (p.bind k) trail last (.done final)) :
    ∃ result before after middle, trail = before ++ after ∧ Timed now p before middle (.done result) ∧
      Timed middle (k result) after last (.done final) := by
  rcases of_bind h with ⟨p', hp', hlast⟩ | hboth
  · cases p' with
    | done result =>
        refine ⟨result, trail, [], last, (List.append_nil _).symm, hp', ?_⟩
        rw [hlast]
        exact .rest last _
    | _ => exact absurd hlast (by simp [Process.bind])
  · exact hboth

end Timed

end Process

/-! ## One after another -/

/-- A process that has come to a point at some moment waits there in some way. -/
inductive Process.HaltsAt (now : Nat) : Process W ι R → Wait W ι R → Prop
  | sleep (ms : Nat) (next : Process W ι R) : ms ≠ 0 →
      HaltsAt now (.sleep ms next) (.moment (now + ms) next)
  | pause (ms : Nat) (next : Bool → Process W ι R) :
      HaltsAt now (.pause ms next) (.signal (now + ms) next)
  | join (task : Nat) (next : Option R → Process W ι R) :
      HaltsAt now (.join task next) (.ending task next)

namespace Process.HaltsAt

theorem queued {now : Nat} {q : Process W ι R} {wait : Wait W ι R} (h : q.HaltsAt now wait) :
    wait.queued = false := by
  cases h <;> rfl

theorem not_done {now : Nat} {result : R} {wait : Wait W ι R} :
    ¬(Process.done result : Process W ι R).HaltsAt now wait :=
  nofun

/-- A continued process waits in its first part, unless that part has ended. -/
theorem of_bind {now : Nat} {p : Process W ι R} {k : R → Process W ι R} {wait : Wait W ι R}
    (h : (p.bind k).HaltsAt now wait) :
    (∃ result, p = .done result) ∨ ∃ wait', p.HaltsAt now wait' := by
  cases p with
  | done result => exact Or.inl ⟨result, rfl⟩
  | crash => exact nomatch h
  | act effect next => exact nomatch h
  | sleep ms next =>
      cases h with
      | sleep _ _ hms => exact Or.inr ⟨_, .sleep ms next hms⟩
  | pause ms next => exact Or.inr ⟨_, .pause ms next⟩
  | spawn pool body next => exact nomatch h
  | join task next => exact Or.inr ⟨_, .join task next⟩

end Process.HaltsAt

/-- A process that has come to a point at some moment has ended there or waits. -/
def Process.StopsAt (now : Nat) (q : Process W ι R) : Prop :=
  (∃ result, q = .done result) ∨ ∃ wait, q.HaltsAt now wait

/-- Some items are run in the order of the list, each from the moment at which the one before it has
ended; `runs` says what it is that one of them has come to a point.  `rest` are those that have not ended:
the first of them waits somewhere, and the others have not been begun. -/
inductive InTurn {α : Type}
    (runs : α → Nat → List (Nat × Deed W ι R) → Nat → Process W ι R → Prop) :
    Nat → List α → List (Nat × Deed W ι R) → Nat → List α → Prop
  | through (now : Nat) : InTurn runs now [] [] now []
  | underway {now last : Nat} {item : α} {items : List α} {trail : List (Nat × Deed W ι R)}
      {q : Process W ι R} {wait : Wait W ι R} : runs item now trail last q → q.HaltsAt last wait →
      InTurn runs now (item :: items) trail last (item :: items)
  | next {now middle last : Nat} {item : α} {items rest : List α}
      {first trail : List (Nat × Deed W ι R)} {result : R} :
      runs item now first middle (.done result) → InTurn runs middle items trail last rest →
      InTurn runs now (item :: items) (first ++ trail) last rest

section InTurn

open Process

variable {α : Type} {runs : α → Nat → List (Nat × Deed W ι R) → Nat → Process W ι R → Prop}
  {now last : Nat} {items : List α} {trail : List (Nat × Deed W ι R)}

/-- A sequence that has stopped has run its items in turn, and none of them is left when it has ended. -/
theorem Process.Timed.inTurn_of_sequence {run : α → Process W ι R} {k : List R → Process W ι R}
    {q : Process W ι R} (hk : ∀ results, ∃ result, k results = .done result)
    (hruns : ∀ item now trail last q, Timed now (run item) trail last q → q.StopsAt last →
      runs item now trail last q)
    (h : Timed now (sequence (items.map run) k) trail last q) (hq : q.StopsAt last) :
    ∃ rest, InTurn runs now items trail last rest ∧ (rest = [] ↔ ∃ result, q = .done result) := by
  -- What continues the sequence changes with every result, so it is general in the induction.
  induction items generalizing now trail k with
  | nil =>
      obtain ⟨result, hresult⟩ := hk []
      rw [List.map_nil, sequence, hresult] at h
      obtain ⟨rfl, rfl, hdone⟩ := h.of_done
      exact ⟨[], .through last, fun _ => ⟨result, hdone⟩, fun _ => rfl⟩
  | cons item items ih =>
      rw [List.map_cons, sequence] at h
      -- Either the first item waits, or it has ended and the others go on.
      have hcases : (∃ p' wait, Timed now (run item) trail last p' ∧ p'.HaltsAt last wait ∧
            ¬∃ result, q = .done result) ∨
          ∃ result before after middle, trail = before ++ after ∧
            Timed now (run item) before middle (.done result) ∧
              Timed middle (sequence (items.map run) fun results => k (result :: results)) after last
                q := by
        rcases hq with ⟨final, rfl⟩ | ⟨wait, hhalts⟩
        · exact Or.inr h.of_bind_done
        · rcases h.of_bind with ⟨p', hp', rfl⟩ | hboth
          · rcases hhalts.of_bind with ⟨result, rfl⟩ | ⟨wait', hwait'⟩
            · exact Or.inr ⟨result, trail, [], last, (List.append_nil _).symm, hp', .rest last _⟩
            · refine Or.inl ⟨p', wait', hp', hwait', ?_⟩
              rintro ⟨result, hdone⟩
              exact HaltsAt.not_done (hdone ▸ hhalts)
          · exact Or.inr hboth
      rcases hcases with ⟨p', wait, hp', hwait, hunder⟩ | ⟨result, before, after, middle, rfl, hfirst, hrest⟩
      · exact ⟨item :: items, .underway (hruns _ _ _ _ _ hp' (Or.inr ⟨wait, hwait⟩)) hwait,
          fun hnil => absurd hnil (by simp), fun hended => absurd hended hunder⟩
      · obtain ⟨rest, hturn, hiff⟩ := ih (fun results => hk (result :: results)) hrest
        exact ⟨rest, .next (hruns _ _ _ _ _ hfirst (Or.inl ⟨result, rfl⟩)) hturn, hiff⟩

end InTurn

/-! ## Going on -/

namespace Machine

/-- What a process does when it goes on, until it waits or ends. -/
def deeds : Process W ι R → Machine W ι R → List (Deed W ι R)
  | .done _, _ => []
  | .crash, _ => []
  | .act effect next, m =>
      .changes m.world (effect m.now m.world) ::
        deeds (next m.world) { m with world := effect m.now m.world }
  | .sleep ms next, m => if ms = 0 then deeds next m else []
  | .pause ms next, m =>
      if m.interrupted then deeds (next true) m
      else if ms = 0 then deeds (next false) m
      else []
  | .spawn pool body next, m =>
      .starts body :: deeds (next (m.spawn pool body).1) (m.spawn pool body).2
  | .join task next, m =>
      match m.ending? task with
      | some ending => deeds (next ending.result?) m
      | none => []

/-- What a waiting task does when it goes on. -/
def deedsOf (task : Task W ι R) (m : Machine W ι R) : List (Deed W ι R) :=
  match task.wait with
  | .permit body => deeds body m
  | .moment _ next => deeds next m
  | .signal _ next => deeds (next m.interrupted) m
  | .ending id next => deeds (next (m.result? id)) m

/-- What a process does has nothing to do with the tasks that wait. -/
theorem deeds_withTasks (p : Process W ι R) : ∀ (m : Machine W ι R) (tasks : List (Task W ι R)),
    deeds p { m with tasks := tasks } = deeds p m := by
  induction p with
  | done result => exact fun _ _ => rfl
  | crash => exact fun _ _ => rfl
  | act effect next ih =>
      intro m tasks
      have hlater := ih m.world { m with world := effect m.now m.world } tasks
      rw [deeds, deeds, ← hlater]
  | sleep ms next ih =>
      intro m tasks
      rw [deeds, deeds]
      split
      · exact ih m tasks
      · rfl
  | pause ms next ih =>
      intro m tasks
      have hsame : interrupted { m with tasks := tasks } = m.interrupted := rfl
      rw [deeds, deeds, hsame]
      split
      · exact ih true m tasks
      · split
        · exact ih false m tasks
        · rfl
  | spawn pool body next _ ih =>
      intro m tasks
      have hspawn : ∃ others, spawn { m with tasks := tasks } pool body =
          ((m.spawn pool body).1, { (m.spawn pool body).2 with tasks := others }) := by
        unfold spawn
        split
        · exact ⟨tasks, rfl⟩
        · exact ⟨_, rfl⟩
      obtain ⟨others, hothers⟩ := hspawn
      rw [deeds, deeds, hothers, ih _ (m.spawn pool body).2 others]
  | join task next ih =>
      intro m tasks
      have hsame : ending? { m with tasks := tasks } task = m.ending? task := rfl
      rw [deeds, deeds, hsame]
      split
      · exact ih _ m tasks
      · rfl

theorem deedsOf_withTasks (task : Task W ι R) (m : Machine W ι R) (tasks : List (Task W ι R)) :
    deedsOf task { m with tasks := tasks } = deedsOf task m := by
  unfold deedsOf
  split
  all_goals exact deeds_withTasks _ m tasks

/-- Some deeds of one moment. -/
def deedsAt (now : Nat) (trail : List (Deed W ι R)) : List (Nat × Deed W ι R) :=
  trail.map fun deed => (now, deed)

variable [DecidableEq ι]

/-- What a task that has gone on comes to, with what it has left to do: it waits again or it ends. -/
inductive ComesTo (id : Nat) (pool : ι) (m : Machine W ι R) :
    Process W ι R → Machine W ι R → Prop
  | waits {q : Process W ι R} {wait : Wait W ι R} : q.HaltsAt m.now wait →
      ComesTo id pool m q (m.park ⟨id, pool, wait⟩)
  | finishes (result : R) : ComesTo id pool m (.done result) (m.finish id (.finished result))
  | breaks : ComesTo id pool m .crash (m.lose id pool .panicked)

theorem ComesTo.rests {id : Nat} {pool : ι} {m m' : Machine W ι R} {q : Process W ι R}
    (h : m.ComesTo id pool q m') : m.Rests id pool m' := by
  cases h with
  | waits hhalts => exact .waits _ hhalts.queued
  | finishes result => exact .finishes result
  | breaks => exact .breaks

/-- A task that goes on starts tasks, changes the world and comes to a point of its course, all at the
present moment. -/
theorem comesTo_proceed (id : Nat) (pool : ι) (p : Process W ι R) :
    ∀ m : Machine W ι R, ∃ q world started,
      p.Timed m.now (deedsAt m.now (deeds p m)) m.now q ∧ m.Startable started ∧
        (m.enlist world started).ComesTo id pool q (proceed id pool p m) := by
  -- Every case that does not go on starts nothing and leaves the world as it is.
  have hrest : ∀ {m m' : Machine W ι R} {p : Process W ι R}, m.ComesTo id pool p m' →
      ∃ q world started, p.Timed m.now (deedsAt m.now []) m.now q ∧ m.Startable started ∧
        (m.enlist world started).ComesTo id pool q m' := by
    intro m m' p h
    refine ⟨p, m.world, [], .rest _ p, .nil m, ?_⟩
    rw [enlist_nil]
    exact h
  induction p with
  | done result => exact fun m => hrest (.finishes result)
  | crash => exact fun m => hrest .breaks
  | act effect next ih =>
      intro m
      obtain ⟨q, world, started, htimed, hstarted, h⟩ :=
        ih m.world { m with world := effect m.now m.world }
      exact ⟨q, world, started, .act m.world htimed,
        ⟨hstarted.numbered, hstarted.queued, hstarted.accepted⟩, h⟩
  | sleep ms next ih =>
      intro m
      rw [proceed, deeds]
      by_cases hms : ms = 0
      · rw [if_pos hms, if_pos hms]
        obtain ⟨q, world, started, htimed, hstarted, h⟩ := ih m
        exact ⟨q, world, started, .sleep (by simpa [hms] using htimed), hstarted, h⟩
      · rw [if_neg hms, if_neg hms]
        exact hrest (.waits (.sleep ms next hms))
  | pause ms next ih =>
      intro m
      have hgoes : ∀ interrupted, ∃ q world started,
          (Process.pause ms next).Timed m.now (deedsAt m.now (deeds (next interrupted) m)) m.now q ∧
            m.Startable started ∧
              (m.enlist world started).ComesTo id pool q (proceed id pool (next interrupted) m) := by
        intro interrupted
        obtain ⟨q, world, started, htimed, hstarted, h⟩ := ih interrupted m
        exact ⟨q, world, started, .pause interrupted (Nat.le_refl _) (Nat.le_add_right _ _) htimed,
          hstarted, h⟩
      rw [proceed, deeds]
      by_cases hon : m.interrupted = true
      · rw [if_pos hon, if_pos hon]
        exact hgoes true
      · rw [if_neg hon, if_neg hon]
        by_cases hms : ms = 0
        · rw [if_pos hms, if_pos hms]
          exact hgoes false
        · rw [if_neg hms, if_neg hms]
          exact hrest (.waits (.pause ms next))
  | spawn target body next _ ih =>
      intro m
      rw [proceed, deeds]
      obtain ⟨q, world, started, htimed, hstarted, h⟩ :=
        ih (m.spawn target body).1 (m.spawn target body).2
      obtain ⟨first, hfirst, hspawn⟩ := exists_spawn_eq m target body
      have hnow : (m.spawn target body).2.now = m.now := by
        rw [hspawn]
        rfl
      rw [hnow] at htimed
      rw [hspawn] at hstarted
      refine ⟨q, world, first ++ started, .spawn _ htimed, hfirst.append hstarted, ?_⟩
      rw [← enlist_enlist m m.world world, ← hspawn]
      exact h
  | join target next ih =>
      intro m
      rw [proceed, deeds]
      cases m.ending? target with
      | some ending =>
          obtain ⟨q, world, started, htimed, hstarted, h⟩ := ih ending.result? m
          exact ⟨q, world, started, .join _ (Nat.le_refl _) htimed, hstarted, h⟩
      | none => exact hrest (.waits (.join target next))

/-- A process that has halted goes on from there when its task does, provided that a sleep is over at just
this moment and the moment of a pause is not past. -/
theorem comesTo_resume {task : Task W ι R} {m : Machine W ι R} {p : Process W ι R} {last : Nat}
    (hp : p.HaltsAt last task.wait) (hlast : last ≤ m.now)
    (hmoment : ∀ due next, task.wait = .moment due next → due = m.now)
    (hsignal : ∀ due next, task.wait = .signal due next → m.now ≤ due) :
    ∃ q world started, p.Timed last (deedsAt m.now (deedsOf task m)) m.now q ∧ m.Startable started ∧
      (m.enlist world started).ComesTo task.id task.pool q (resume task m) := by
  unfold resume deedsOf
  generalize task.wait = wait at hp hmoment hsignal
  cases hp with
  | sleep ms next hms =>
      obtain ⟨q, world, started, htimed, hrest⟩ := comesTo_proceed task.id task.pool next m
      exact ⟨q, world, started, .sleep (hmoment _ _ rfl ▸ htimed), hrest⟩
  | pause ms next =>
      obtain ⟨q, world, started, htimed, hrest⟩ :=
        comesTo_proceed task.id task.pool (next m.interrupted) m
      exact ⟨q, world, started, .pause _ hlast (hsignal _ _ rfl) htimed, hrest⟩
  | join awaited next =>
      obtain ⟨q, world, started, htimed, hrest⟩ :=
        comesTo_proceed task.id task.pool (next (m.result? awaited)) m
      exact ⟨q, world, started, .join _ hlast htimed, hrest⟩

end Machine

end MenuActions.Schedule
