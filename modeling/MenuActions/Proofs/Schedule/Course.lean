import MenuActions.Proofs.Schedule.Interleaving

/-!
# Courses of a process

What a process does between its beginning and a later point, whatever goes on around it: the changes that
it makes to the world, each with the world that it finds, and the tasks that it starts.  Nothing is
assumed of what happens in between, so the world that a change finds need not be the one that the change
before it has left.

`Course.of_bind` cuts the course of a continued process where the first part ends.  With it, what is said
of the courses of some processes is carried over to those that are put together from them: a `Story` is
something to say of a trail, and `Tells` that it is true of every course of a process and of the tasks
that it starts.  `course_run` says that a run in the foreground is a course.
-/

namespace MenuActions.Schedule

variable {W ι R : Type}

/-- Something that a process does: a change of the world, or the start of a task. -/
inductive Deed (W ι R : Type)
  | changes (before after : W)
  | starts (body : Process W ι R)

namespace Process

/-- A process comes to a point, with what it has done on the way. It learns from its pauses only what
`learns` allows. -/
inductive Course (learns : Bool → Prop) : Process W ι R → List (Deed W ι R) → Process W ι R → Prop
  | rest (p : Process W ι R) : Course learns p [] p
  | act {effect : Nat → W → W} {next : W → Process W ι R} {trail : List (Deed W ι R)}
      {q : Process W ι R} (now : Nat) (w : W) : Course learns (next w) trail q →
      Course learns (.act effect next) (.changes w (effect now w) :: trail) q
  | sleep {ms : Nat} {next : Process W ι R} {trail : List (Deed W ι R)} {q : Process W ι R} :
      Course learns next trail q → Course learns (.sleep ms next) trail q
  | pause {ms : Nat} {next : Bool → Process W ι R} {trail : List (Deed W ι R)} {q : Process W ι R}
      (interrupted : Bool) : learns interrupted → Course learns (next interrupted) trail q →
      Course learns (.pause ms next) trail q
  | spawn {pool : ι} {body : Process W ι R} {next : Option Nat → Process W ι R}
      {trail : List (Deed W ι R)} {q : Process W ι R} (task : Option Nat) :
      Course learns (next task) trail q →
      Course learns (.spawn pool body next) (.starts body :: trail) q
  | join {task : Nat} {next : Option R → Process W ι R} {trail : List (Deed W ι R)}
      {q : Process W ι R} (result : Option R) : Course learns (next result) trail q →
      Course learns (.join task next) trail q

namespace Course

variable {learns : Bool → Prop} {p q : Process W ι R} {trail more : List (Deed W ι R)}

theorem trans (h : Course learns p trail q) {last : Process W ι R}
    (h' : Course learns q more last) : Course learns p (trail ++ more) last := by
  induction h with
  | rest _ => exact h'
  | act now w _ ih => exact .act now w (ih h')
  | sleep _ ih => exact .sleep (ih h')
  | pause interrupted hlearns _ ih => exact .pause interrupted hlearns (ih h')
  | spawn task _ ih => exact .spawn task (ih h')
  | join result _ ih => exact .join result (ih h')

/-- What may be learned may be restricted less. -/
theorem mono {other : Bool → Prop} (hle : ∀ b, learns b → other b) (h : Course learns p trail q) :
    Course other p trail q := by
  induction h with
  | rest p => exact .rest p
  | act now w _ ih => exact .act now w ih
  | sleep _ ih => exact .sleep ih
  | pause interrupted hlearns _ ih => exact .pause interrupted (hle _ hlearns) ih
  | spawn task _ ih => exact .spawn task ih
  | join result _ ih => exact .join result ih

/-- A process that has ended does nothing more. -/
theorem of_done {result : R} (h : Course learns (.done result) trail q) :
    trail = [] ∧ q = .done result := by
  cases h
  exact ⟨rfl, rfl⟩

/-- In the course of a process that is continued, either the first part is still under way, or it has
ended and the other one goes on with its result. -/
theorem of_bind {k : R → Process W ι R} (h : Course learns (p.bind k) trail q) :
    (∃ p', Course learns p trail p' ∧ q = p'.bind k) ∨
      ∃ result before after, trail = before ++ after ∧ Course learns p before (.done result) ∧
        Course learns (k result) after q := by
  -- A first part that has done nothing yet may rest; otherwise its next thing is the first of the trail.
  have hrest : ∀ {p : Process W ι R}, (∃ p', Course learns p [] p' ∧ p.bind k = p'.bind k) ∨
      ∃ result before after, [] = before ++ after ∧ Course learns p before (.done result) ∧
        Course learns (k result) after (p.bind k) :=
    fun {p} => Or.inl ⟨p, .rest p, rfl⟩
  induction p generalizing trail with
  | done result => exact Or.inr ⟨result, [], trail, rfl, .rest _, h⟩
  | crash =>
      cases h
      exact hrest
  | act effect next ih =>
      cases h with
      | rest => exact hrest
      | act now w h =>
          rcases ih w h with ⟨p', hp', rfl⟩ | ⟨result, before, after, rfl, hp, hk⟩
          · exact Or.inl ⟨p', .act now w hp', rfl⟩
          · exact Or.inr ⟨result, _, after, (List.cons_append ..).symm, .act now w hp, hk⟩
  | sleep ms next ih =>
      cases h with
      | rest => exact hrest
      | sleep h =>
          rcases ih h with ⟨p', hp', rfl⟩ | ⟨result, before, after, rfl, hp, hk⟩
          · exact Or.inl ⟨p', .sleep hp', rfl⟩
          · exact Or.inr ⟨result, before, after, rfl, .sleep hp, hk⟩
  | pause ms next ih =>
      cases h with
      | rest => exact hrest
      | pause interrupted hlearns h =>
          rcases ih interrupted h with ⟨p', hp', rfl⟩ | ⟨result, before, after, rfl, hp, hk⟩
          · exact Or.inl ⟨p', .pause interrupted hlearns hp', rfl⟩
          · exact Or.inr ⟨result, before, after, rfl, .pause interrupted hlearns hp, hk⟩
  | spawn pool body next _ ih =>
      cases h with
      | rest => exact hrest
      | spawn task h =>
          rcases ih task h with ⟨p', hp', rfl⟩ | ⟨result, before, after, rfl, hp, hk⟩
          · exact Or.inl ⟨p', .spawn task hp', rfl⟩
          · exact Or.inr ⟨result, _, after, (List.cons_append ..).symm, .spawn task hp, hk⟩
  | join task next ih =>
      cases h with
      | rest => exact hrest
      | join result h =>
          rcases ih result h with ⟨p', hp', rfl⟩ | ⟨last, before, after, rfl, hp, hk⟩
          · exact Or.inl ⟨p', .join result hp', rfl⟩
          · exact Or.inr ⟨last, before, after, rfl, .join result hp, hk⟩

/-- A continued process that has ended has ended in both parts. -/
theorem of_bind_done {k : R → Process W ι R} {last : R}
    (h : Course learns (p.bind k) trail (.done last)) :
    ∃ result before after, trail = before ++ after ∧ Course learns p before (.done result) ∧
      Course learns (k result) after (.done last) := by
  rcases of_bind h with ⟨p', hp', hlast⟩ | hboth
  · cases p' with
    | done result =>
        refine ⟨result, trail, [], (List.append_nil _).symm, hp', ?_⟩
        rw [hlast]
        exact .rest _
    | _ => exact absurd hlast (by simp [Process.bind])
  · exact hboth

end Course

end Process

/-! ## Stories -/

/-- Something to say of what a process has done, so far (`part`) or when it has ended (`whole`), that
carries over to what is done one after the other. -/
structure Story (W ι R : Type) where
  part : List (Deed W ι R) → Prop
  whole : List (Deed W ι R) → Prop
  part_of_whole : ∀ {trail}, whole trail → part trail
  nil : whole []
  starts : ∀ body, whole [.starts body]
  append_part : ∀ {trail more}, whole trail → part more → part (trail ++ more)
  append_whole : ∀ {trail more}, whole trail → whole more → whole (trail ++ more)

/-- The story that every change of the world is of some kind. -/
def Story.every (kind : W → W → Prop) : Story W ι R where
  part trail := ∀ before after, .changes before after ∈ trail → kind before after
  whole trail := ∀ before after, .changes before after ∈ trail → kind before after
  part_of_whole h := h
  nil _ _ h := absurd h List.not_mem_nil
  starts _ _ _ h := absurd h (by simp)
  append_part h h' _ _ hmem := (List.mem_append.mp hmem).elim (h _ _) (h' _ _)
  append_whole h h' _ _ hmem := (List.mem_append.mp hmem).elim (h _ _) (h' _ _)

namespace Process

/-- A story is true of all courses of a process, and of those of the tasks that it starts. -/
inductive Tells (story : Story W ι R) : Process W ι R → Prop
  | intro {p : Process W ι R} :
      (∀ {trail q}, p.Course (fun _ => True) trail q → story.part trail) →
      (∀ {trail result}, p.Course (fun _ => True) trail (.done result) → story.whole trail) →
      (∀ {trail q body}, p.Course (fun _ => True) trail q → .starts body ∈ trail →
        Tells story body) →
      Tells story p

namespace Tells

variable {story : Story W ι R} {p : Process W ι R}

theorem part (h : p.Tells story) {learns : Bool → Prop} {trail : List (Deed W ι R)}
    {q : Process W ι R} (hcourse : p.Course learns trail q) : story.part trail := by
  cases h with
  | intro hpart _ _ => exact hpart (hcourse.mono fun _ _ => trivial)

theorem whole (h : p.Tells story) {learns : Bool → Prop} {trail : List (Deed W ι R)} {result : R}
    (hcourse : p.Course learns trail (.done result)) : story.whole trail := by
  cases h with
  | intro _ hwhole _ => exact hwhole (hcourse.mono fun _ _ => trivial)

theorem started (h : p.Tells story) {learns : Bool → Prop} {trail : List (Deed W ι R)}
    {q body : Process W ι R} (hcourse : p.Course learns trail q) (hbody : .starts body ∈ trail) :
    body.Tells story := by
  cases h with
  | intro _ _ hstarted => exact hstarted (hcourse.mono fun _ _ => trivial) hbody

theorem done (result : R) : (Process.done result : Process W ι R).Tells story := by
  refine .intro (fun h => ?_) (fun h => ?_) fun h hbody => ?_
  · exact h.of_done.1 ▸ story.part_of_whole story.nil
  · exact h.of_done.1 ▸ story.nil
  · rw [h.of_done.1] at hbody
    exact absurd hbody List.not_mem_nil

theorem bind (h : p.Tells story) {k : R → Process W ι R} (hk : ∀ result, (k result).Tells story) :
    (p.bind k).Tells story := by
  refine .intro (fun hcourse => ?_) (fun hcourse => ?_) fun hcourse hbody => ?_
  · rcases hcourse.of_bind with ⟨p', hp', -⟩ | ⟨result, before, after, rfl, hp, hrest⟩
    · exact h.part hp'
    · exact story.append_part (h.whole hp) ((hk result).part hrest)
  · obtain ⟨result, before, after, rfl, hp, hrest⟩ := hcourse.of_bind_done
    exact story.append_whole (h.whole hp) ((hk result).whole hrest)
  · rcases hcourse.of_bind with ⟨p', hp', -⟩ | ⟨result, before, after, rfl, hp, hrest⟩
    · exact h.started hp' hbody
    · rcases List.mem_append.mp hbody with hfirst | hlast
      · exact h.started hp hfirst
      · exact (hk result).started hrest hlast

theorem act {effect : Nat → W → W} {next : W → Process W ι R}
    (heffect : ∀ now w, story.whole [.changes w (effect now w)])
    (hnext : ∀ w, (next w).Tells story) : (Process.act effect next).Tells story := by
  refine .intro (fun hcourse => ?_) (fun hcourse => ?_) fun hcourse hbody => ?_
  · cases hcourse with
    | rest => exact story.part_of_whole story.nil
    | act now w hrest => exact story.append_part (heffect now w) ((hnext w).part hrest)
  · cases hcourse with
    | act now w hrest => exact story.append_whole (heffect now w) ((hnext w).whole hrest)
  · cases hcourse with
    | rest => exact absurd hbody List.not_mem_nil
    | act now w hrest =>
        have hlater := (List.mem_cons.mp hbody).resolve_left (by simp)
        exact (hnext w).started hrest hlater

theorem sleep {ms : Nat} (h : p.Tells story) : (Process.sleep ms p).Tells story := by
  refine .intro (fun hcourse => ?_) (fun hcourse => ?_) fun hcourse hbody => ?_
  · cases hcourse with
    | rest => exact story.part_of_whole story.nil
    | sleep hrest => exact h.part hrest
  · cases hcourse with
    | sleep hrest => exact h.whole hrest
  · cases hcourse with
    | rest => exact absurd hbody List.not_mem_nil
    | sleep hrest => exact h.started hrest hbody

theorem spawn {pool : ι} {body : Process W ι R} {next : Option Nat → Process W ι R}
    (hbody : body.Tells story) (hnext : ∀ task, (next task).Tells story) :
    (.spawn pool body next : Process W ι R).Tells story := by
  refine .intro (fun hcourse => ?_) (fun hcourse => ?_) fun hcourse hstarted => ?_
  · cases hcourse with
    | rest => exact story.part_of_whole story.nil
    | spawn task hrest => exact story.append_part (story.starts body) ((hnext task).part hrest)
  · cases hcourse with
    | spawn task hrest => exact story.append_whole (story.starts body) ((hnext task).whole hrest)
  · cases hcourse with
    | rest => exact absurd hstarted List.not_mem_nil
    | spawn task hrest =>
        rcases List.mem_cons.mp hstarted with hfirst | hlater
        · obtain rfl := Deed.starts.inj hfirst
          exact hbody
        · exact (hnext task).started hrest hlater

theorem join {task : Nat} {next : Option R → Process W ι R}
    (hnext : ∀ result, (next result).Tells story) : (Process.join task next).Tells story := by
  refine .intro (fun hcourse => ?_) (fun hcourse => ?_) fun hcourse hbody => ?_
  · cases hcourse with
    | rest => exact story.part_of_whole story.nil
    | join result hrest => exact (hnext result).part hrest
  · cases hcourse with
    | join result hrest => exact (hnext result).whole hrest
  · cases hcourse with
    | rest => exact absurd hbody List.not_mem_nil
    | join result hrest => exact (hnext result).started hrest hbody

theorem sequence {ps : List (Process W ι R)} (hps : ∀ p ∈ ps, p.Tells story)
    {k : List R → Process W ι R} (hk : ∀ results, (k results).Tells story) :
    (Process.sequence ps k).Tells story := by
  induction ps generalizing k with
  | nil => exact hk []
  | cons p ps ih =>
      refine (hps p List.mem_cons_self).bind fun result => ?_
      exact ih (fun q hq => hps q (List.mem_cons_of_mem p hq)) fun results => hk (result :: results)

end Tells

/-- The process that has come to its end with a result, or broken down without one. -/
def ofResult : Option R → Process W ι R
  | some result => .done result
  | none => .crash

end Process

/-! ## Runs in the foreground -/

namespace Machine

variable [DecidableEq ι]

theorem interrupt_resume (task : Task W ι R) (m : Machine W ι R) :
    (resume task m).interrupt = m.interrupt := by
  obtain ⟨world, started, -, hrests⟩ := rests_resume task m
  generalize resume task m = m' at hrests
  cases hrests with
  | waits => rfl
  | finishes => rfl
  | breaks => rfl

theorem interrupt_drive (enough : Machine W ι R → Bool) (limit : Option Nat) (m : Machine W ι R) :
    (m.drive enough limit).interrupt = m.interrupt := by
  refine (drive_induction (P := fun x => x.interrupt = m.interrupt) (fun x x' hx hstep => ?_) rfl).1
  unfold step? at hstep
  split at hstep
  · exact absurd hstep (by simp)
  · split at hstep
    · obtain rfl := Option.some.inj hstep
      rw [interrupt_resume]
      exact hx
    · exact absurd hstep (by simp)

theorem interrupt_advanceTo (moment : Nat) (m : Machine W ι R) :
    (m.advanceTo moment).interrupt = m.interrupt :=
  interrupt_drive _ _ m

omit [DecidableEq ι] in
/-- Without an interrupt, none is on. -/
theorem interrupted_of_none {m : Machine W ι R} (h : m.interrupt = none) : m.interrupted = false := by
  unfold interrupted
  rw [h]

/-- What is learned from a pause in the foreground: an interrupt only if there is one. -/
def Learns (m : Machine W ι R) (interrupted : Bool) : Prop :=
  interrupted = true → m.interrupt ≠ none

omit [DecidableEq ι] in
theorem learns_interrupted (m : Machine W ι R) : m.Learns m.interrupted := by
  intro hon hnone
  rw [interrupted_of_none hnone] at hon
  exact absurd hon (by decide)

/-- A run in the foreground is a course to the end of the process, and turns no interrupt on. -/
theorem course_run (p : Process W ι R) : ∀ m : Machine W ι R,
    (run p m).2.interrupt = m.interrupt ∧
      ∃ trail, p.Course m.Learns trail (.ofResult (run p m).1) := by
  -- What may be learned depends on the interrupt alone, which waiting leaves as it is.
  have hkeeps : ∀ {m waited : Machine W ι R} {p : Process W ι R}, waited.interrupt = m.interrupt →
      ((run p waited).2.interrupt = waited.interrupt ∧
        ∃ trail, p.Course waited.Learns trail (.ofResult (run p waited).1)) →
      (run p waited).2.interrupt = m.interrupt ∧
        ∃ trail, p.Course m.Learns trail (.ofResult (run p waited).1) := by
    rintro m waited p hsame ⟨hinterrupt, trail, hcourse⟩
    refine ⟨hinterrupt.trans hsame, trail, hcourse.mono fun b hb => ?_⟩
    rwa [Learns, ← hsame]
  induction p with
  | done result => exact fun m => ⟨rfl, [], .rest _⟩
  | crash => exact fun m => ⟨rfl, [], .rest _⟩
  | act effect next ih =>
      intro m
      obtain ⟨hinterrupt, trail, hcourse⟩ := ih m.world { m with world := effect m.now m.world }
      exact ⟨hinterrupt, _, .act m.now m.world hcourse⟩
  | sleep ms next ih =>
      intro m
      rw [run]
      have hwaited : (if ms = 0 then m else m.advanceTo (m.now + ms)).interrupt = m.interrupt := by
        split
        · rfl
        · exact interrupt_advanceTo _ m
      obtain ⟨hinterrupt, trail, hcourse⟩ := hkeeps hwaited (ih _)
      exact ⟨hinterrupt, trail, .sleep hcourse⟩
  | pause ms next ih =>
      intro m
      rw [run]
      split
      · rename_i hon
        obtain ⟨hinterrupt, trail, hcourse⟩ := ih true m
        exact ⟨hinterrupt, trail, .pause true (hon ▸ m.learns_interrupted) hcourse⟩
      · split
        · obtain ⟨hinterrupt, trail, hcourse⟩ := ih false m
          exact ⟨hinterrupt, trail, .pause false (fun h => absurd h (by decide)) hcourse⟩
        · extract_lets due waited
          have hwaited : waited.interrupt = m.interrupt := interrupt_advanceTo _ m
          obtain ⟨hinterrupt, trail, hcourse⟩ := hkeeps hwaited (ih waited.interrupted waited)
          have hlearns : m.Learns waited.interrupted := by
            rw [Learns, ← hwaited]
            exact waited.learns_interrupted
          exact ⟨hinterrupt, trail, .pause _ hlearns hcourse⟩
  | spawn pool body next _ ih =>
      intro m
      have hspawn : (m.spawn pool body).2.interrupt = m.interrupt := by
        unfold spawn
        split <;> rfl
      obtain ⟨hinterrupt, trail, hcourse⟩ := hkeeps hspawn (ih (m.spawn pool body).1 _)
      exact ⟨hinterrupt, _, .spawn _ hcourse⟩
  | join task next ih =>
      intro m
      rw [run]
      have hwaited : (m.awaitEnd task).interrupt = m.interrupt := interrupt_drive _ _ m
      obtain ⟨hinterrupt, trail, hcourse⟩ := hkeeps hwaited (ih ((m.awaitEnd task).result? task) _)
      exact ⟨hinterrupt, trail, .join _ hcourse⟩

end Machine

end MenuActions.Schedule
