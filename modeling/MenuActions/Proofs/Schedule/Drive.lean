import MenuActions.Schedule.Machine

/-!
# Driving a machine

The equations of `drive`, and the one induction over it: what every step keeps is kept until the
machine stops.  A foreground run of a process that continues another one is the run of the first and
then that of the second.

`drive` goes on for as long as the waits last.  `steps` takes a number of steps and computes; the two
agree when that number is enough (`drive_eq_steps`).
-/

namespace MenuActions.Schedule.Machine

variable {W ι R : Type} [DecidableEq ι] {enough : Machine W ι R → Bool} {limit : Option Nat}
  {m m' : Machine W ι R}

omit [DecidableEq ι] in
/-- The member that is found has the time that is given with it. -/
theorem time_of_earliest {α : Type} {time : α → Option Nat} :
    ∀ {xs : List α} {t : Nat} {x : α} {rest : List α},
      earliest time xs = some (t, x, rest) → time x = some t
  | [], _, _, _, h => by simp [earliest] at h
  | y :: ys, t, x, rest, h => by
      unfold earliest at h
      split at h
      · simp at h
      · rename_i he
        simp only [Option.some.injEq, Prod.mk.injEq] at h
        obtain ⟨rfl, rfl, rfl⟩ := h
        exact time_of_earliest he
      · rename_i htime _
        simp only [Option.some.injEq, Prod.mk.injEq] at h
        obtain ⟨rfl, rfl, rfl⟩ := h
        exact htime
      · rename_i htime he
        split at h
        · simp only [Option.some.injEq, Prod.mk.injEq] at h
          obtain ⟨rfl, rfl, rfl⟩ := h
          exact htime
        · simp only [Option.some.injEq, Prod.mk.injEq] at h
          obtain ⟨rfl, rfl, rfl⟩ := h
          exact time_of_earliest he

/-- No member is found only when none has a time. -/
theorem earliest_eq_none {α : Type} {time : α → Option Nat} {xs : List α}
    (h : earliest time xs = none) : ∀ x ∈ xs, time x = none := by
  induction xs with
  | nil => exact fun _ hx => absurd hx List.not_mem_nil
  | cons y ys ih =>
      unfold earliest at h
      split at h
      · rename_i htime hrest
        intro x hx
        rcases List.mem_cons.mp hx with rfl | hx
        · exact htime
        · exact ih hrest x hx
      · exact absurd h (by simp)
      · exact absurd h (by simp)
      · split at h
        · exact absurd h (by simp)
        · exact absurd h (by simp)

/-- The moment at which a task can go on is not past. -/
theorem now_le_wakeTime {task : Task W ι R} {moment : Nat} (h : m.wakeTime task = some moment) :
    m.now ≤ moment := by
  unfold wakeTime at h
  split at h
  · split at h
    · exact Nat.le_of_eq (Option.some.inj h)
    · exact absurd h (by simp)
  · have hmax := Option.some.inj h
    omega
  · split at h
    · have hmax := Option.some.inj h
      omega
    · have hmax := Option.some.inj h
      omega
  · obtain ⟨_, _, hnow⟩ := Option.map_eq_some_iff.mp h
    exact Nat.le_of_eq hnow

theorem drive_of_enough (h : enough m = true) : m.drive enough limit = m := by
  unfold drive
  rw [if_pos h]

theorem drive_of_step (h : enough m = false) (hstep : m.step? limit = some m') :
    m.drive enough limit = m'.drive enough limit := by
  rw [drive.eq_1, if_neg (by simp [h])]
  split
  · rename_i found hfound
    rw [hstep, Option.some.injEq] at hfound
    rw [hfound]
  · rename_i hnone
    rw [hstep] at hnone
    exact absurd hnone (by simp)

theorem drive_of_stuck (hstep : m.step? limit = none) : m.drive enough limit = m := by
  unfold drive
  split
  · rfl
  · split
    · rename_i hsome
      rw [hstep] at hsome
      exact absurd hsome (by simp)
    · rfl

/-- What every step keeps holds when the machine stops, and the machine stops because it is enough
or because no task can go on. -/
theorem drive_induction {P : Machine W ι R → Prop}
    (hstep : ∀ m m' : Machine W ι R, P m → m.step? limit = some m' → P m') (h : P m) :
    P (m.drive enough limit) ∧
      (enough (m.drive enough limit) = true ∨ (m.drive enough limit).step? limit = none) := by
  -- The induction follows the recursion of `drive`, along the waits that come to an end.
  induction m using drive.induct enough limit with
  | case1 m henough =>
      rw [drive_of_enough henough]
      exact ⟨h, Or.inl henough⟩
  | case2 m henough next hnext ih =>
      rw [drive_of_step (by simpa using henough) hnext]
      exact ih (hstep m next h hnext)
  | case3 m henough hnone =>
      rw [drive_of_stuck hnone]
      exact ⟨h, Or.inr hnone⟩

/-- A machine that is driven stops because it is enough or because no task can go on. -/
theorem drive_stops (enough : Machine W ι R → Bool) (limit : Option Nat) (m : Machine W ι R) :
    enough (m.drive enough limit) = true ∨ (m.drive enough limit).step? limit = none :=
  (drive_induction (P := fun _ => True) (fun _ _ _ _ => trivial) trivial).2

/-- The machine after some steps, none of them after `limit`, or where it stops before. -/
def steps (limit : Option Nat) : Nat → Machine W ι R → Machine W ι R
  | 0, m => m
  | n + 1, m =>
      match m.step? limit with
      | some next => steps limit n next
      | none => m

/-- A machine that is driven comes to where so many steps lead that no other is left. -/
theorem drive_eq_steps (n : Nat) (h : ((m.steps limit n).step? limit).isNone = true) :
    m.drive (fun _ => false) limit = m.steps limit n := by
  induction n generalizing m with
  | zero => exact drive_of_stuck (Option.isNone_iff_eq_none.mp h)
  | succ n ih =>
      unfold steps at h ⊢
      split
      · rename_i next hnext
        rw [hnext] at h
        rw [drive_of_step rfl hnext]
        exact ih h
      · rename_i hnone
        exact drive_of_stuck hnone

/-- Time passes in so many steps that no task can go on by then. -/
theorem advanceTo_eq_steps {moment : Nat} (n : Nat)
    (h : ((m.steps (some moment) n).step? (some moment)).isNone = true) :
    m.advanceTo moment =
      { m.steps (some moment) n with now := max (m.steps (some moment) n).now moment } := by
  rw [advanceTo, drive_eq_steps n h]

/-- When no task can ever go on, none of the waiting ones has a moment for it. -/
theorem wakeTime_of_stuck (h : m.step? none = none) : ∀ task ∈ m.tasks, m.wakeTime task = none := by
  unfold step? at h
  split at h
  · rename_i hearliest
    exact earliest_eq_none hearliest
  · exact absurd h (by simp)

/-- A process that continues another one goes on where that one has ended. -/
theorem run_bind (p : Process W ι R) (k : R → Process W ι R) (m : Machine W ι R) :
    run (p.bind k) m =
      match run p m with
      | (some result, after) => run (k result) after
      | (none, after) => (none, after) := by
  induction p generalizing m with
  | done result => rfl
  | crash => rfl
  | act effect next ih => exact ih m.world { m with world := effect m.now m.world }
  | sleep ms next ih =>
      rw [Process.bind, run, run]
      exact ih _
  | pause ms next ih =>
      rw [Process.bind, run, run]
      split
      · exact ih true m
      · split
        · exact ih false m
        · exact ih _ _
  | spawn pool body next _ ih => exact ih _ _
  | join task next ih => exact ih _ _

end MenuActions.Schedule.Machine
