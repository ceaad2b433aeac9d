import MenuActions.Proofs.Schedule.ClosedPools

/-!
# Punctual machines

On a punctual machine time passes only up to a moment at which a task can go on, so no task goes on later
than it could; and tasks are cancelled only by clearing a pool that is closed.

The operations of a machine are punctual, in whatever order the tasks that are ready go on:
`punctually_drive`, `punctually_advanceTo` and `punctually_shutdown`.  What carries them is that a step
goes to the earliest moment of all (`le_of_earliest`), and that a machine that cannot be driven on has
nothing to do before its limit.
-/

namespace MenuActions.Schedule.Machine

variable {W ι R : Type} [DecidableEq ι] {m m' m'' : Machine W ι R} {event : Event W ι R}
  {enough : Machine W ι R → Bool} {moment : Nat}

/-- Time passes only up to a moment at which a task can go on, and tasks are cancelled only by clearing a
pool that is closed. -/
def Punctual (m : Machine W ι R) : Event W ι R → Prop
  | .passes moment => ∀ task ∈ m.tasks, ∀ due, m.wakeTime task = some due → moment ≤ due
  | .drops _ => False
  | .clears pool => (m.pools pool).closed = true
  | _ => True

/-- Some punctual events lead from one machine to another. -/
def Punctually (m m' : Machine W ι R) : Prop :=
  ∃ events, Trace (fun m event m' => m.Turn event m' ∧ m.Punctual event) m events m'

namespace Punctually

theorem refl (m : Machine W ι R) : m.Punctually m :=
  ⟨[], .nil⟩

theorem single (h : m.Turn event m') (hpunctual : m.Punctual event) : m.Punctually m' :=
  ⟨[event], .single ⟨h, hpunctual⟩⟩

theorem trans (h : m.Punctually m') (h' : m'.Punctually m'') : m.Punctually m'' := by
  obtain ⟨events, hevents⟩ := h
  obtain ⟨more, hmore⟩ := h'
  exact ⟨events ++ more, hevents.append hmore⟩

theorem turns (h : m.Punctually m') : m.Turns m' := by
  obtain ⟨events, hevents⟩ := h
  refine ⟨events, ?_⟩
  induction hevents with
  | nil => exact .nil
  | snoc _ hlast ih => exact ih.snoc hlast.1

end Punctually

omit [DecidableEq ι] in
/-- No member has a time before that of the one that is found. -/
theorem le_of_earliest {α : Type} {time : α → Option Nat} :
    ∀ {xs : List α} {t : Nat} {x : α} {rest : List α}, earliest time xs = some (t, x, rest) →
      ∀ y ∈ xs, ∀ due, time y = some due → t ≤ due
  | [], _, _, _, h => by simp [earliest] at h
  | z :: zs, t, x, rest, h => by
      intro y hy due hdue
      unfold earliest at h
      split at h
      · exact absurd h (by simp)
      · rename_i hnone hrest
        simp only [Option.some.injEq, Prod.mk.injEq] at h
        obtain ⟨rfl, rfl, rfl⟩ := h
        rcases List.mem_cons.mp hy with rfl | hy
        · exact absurd (hnone.symm.trans hdue) (by simp)
        · exact le_of_earliest hrest y hy due hdue
      · rename_i htime hrest
        simp only [Option.some.injEq, Prod.mk.injEq] at h
        obtain ⟨rfl, rfl, rfl⟩ := h
        rcases List.mem_cons.mp hy with rfl | hy
        · exact Nat.le_of_eq (Option.some.inj (htime.symm.trans hdue))
        · exact absurd ((earliest_eq_none hrest y hy).symm.trans hdue) (by simp)
      · rename_i first other z' rest' htime hrest
        have hothers := le_of_earliest hrest
        split at h
        all_goals
          simp only [Option.some.injEq, Prod.mk.injEq] at h
          obtain ⟨rfl, rfl, rfl⟩ := h
          rcases List.mem_cons.mp hy with rfl | hy
        · exact Nat.le_of_eq (Option.some.inj (htime.symm.trans hdue))
        · exact Nat.le_trans ‹_› (hothers y hy due hdue)
        · have := Option.some.inj (htime.symm.trans hdue)
          omega
        · exact hothers y hy due hdue

/-- A machine that cannot be driven on has nothing to do up to its limit. -/
theorem lt_of_stuck (h : m.step? (some moment) = none) :
    ∀ task ∈ m.tasks, ∀ due, m.wakeTime task = some due → moment < due := by
  intro task htask due hdue
  unfold step? at h
  split at h
  · rename_i hearliest
    exact absurd ((earliest_eq_none hearliest task htask).symm.trans hdue) (by simp)
  · rename_i first other rest hearliest
    split at h
    · exact absurd h (by simp)
    · rename_i hlate
      have hfirst : moment < first := by simpa using hlate
      exact Nat.lt_of_lt_of_le hfirst (le_of_earliest hearliest task htask due hdue)

theorem punctually_step {limit : Option Nat} (h : m.step? limit = some m') : m.Punctually m' := by
  unfold step? at h
  split at h
  · exact absurd h (by simp)
  · rename_i moment task rest hearliest
    split at h
    · obtain rfl := Option.some.inj h
      have hpasses : m.Punctually { m with now := moment } :=
        .single (.passes (now_le_wakeTime (time_of_earliest hearliest))) (le_of_earliest hearliest)
      exact hpasses.trans (.single (goesOn_of_earliest hearliest) trivial)
    · exact absurd h (by simp)

theorem punctually_drive (enough : Machine W ι R → Bool) (limit : Option Nat) (m : Machine W ι R) :
    m.Punctually (m.drive enough limit) :=
  (drive_induction (fun _ _ hx hstep => hx.trans (punctually_step hstep)) (.refl m)).1

/-- Time passes up to the limit of a machine that cannot be driven on. -/
theorem punctually_passes (h : m.step? (some moment) = none) (hnow : m.now ≤ moment) :
    m.Punctually { m with now := moment } :=
  .single (.passes hnow) fun task htask due hdue => Nat.le_of_lt (lt_of_stuck h task htask due hdue)

theorem punctually_advanceTo (moment : Nat) (m : Machine W ι R) :
    m.Punctually (m.advanceTo moment) := by
  have hdriven := punctually_drive (fun _ => false) (some moment) m
  have hstuck := (drive_stops (fun _ => false) (some moment) m).resolve_left (by simp)
  refine hdriven.trans (.single (.passes (Nat.le_max_left _ _)) fun task htask due hdue => ?_)
  exact Nat.max_le.mpr
    ⟨now_le_wakeTime hdue, Nat.le_of_lt (lt_of_stuck hstuck task htask due hdue)⟩

theorem punctually_awaitIdle (pools : List ι) (ms : Nat) (m : Machine W ι R) :
    m.Punctually (m.awaitIdle pools ms) := by
  have hdriven := punctually_drive (allIdle pools) (some (m.now + ms)) m
  unfold awaitIdle
  dsimp only
  split
  · exact hdriven
  · rename_i hbusy
    have hstuck := (drive_stops (allIdle pools) (some (m.now + ms)) m).resolve_left hbusy
    exact hdriven.trans (punctually_passes hstuck (now_drive_le (Nat.le_add_right _ _)))

theorem punctually_close (pools : List ι) (m : Machine W ι R) :
    m.Punctually (pools.foldl close m) := by
  induction pools generalizing m with
  | nil => exact .refl m
  | cons pool pools ih => exact (Punctually.single (.closes pool) trivial).trans (ih _)

/-- Pools that are closed are cleared one after the other. -/
theorem punctually_cancel (pools : List ι) (m : Machine W ι R)
    (hclosed : ∀ pool ∈ pools, (m.pools pool).closed = true) :
    m.Punctually (pools.foldl cancel m) := by
  induction pools generalizing m with
  | nil => exact .refl m
  | cons pool pools ih =>
      obtain ⟨hfirst, hrest⟩ := List.forall_mem_cons.mp hclosed
      refine (Punctually.single (.clears pool) hfirst).trans (ih _ fun other hother => ?_)
      rw [closed_cancel]
      exact hrest other hother

theorem closed_foldl_close (pools : List ι) (m : Machine W ι R) {pool : ι}
    (h : pool ∈ pools ∨ (m.pools pool).closed = true) :
    ((pools.foldl close m).pools pool).closed = true := by
  induction pools generalizing m with
  | nil => exact h.resolve_left List.not_mem_nil
  | cons first pools ih =>
      refine ih (m.close first) ?_
      rcases h with hmem | hclosed
      · rcases List.mem_cons.mp hmem with rfl | hmem
        · exact Or.inr (closed_close m pool)
        · exact Or.inl hmem
      · exact Or.inr ((Trace.single (.turn (.closes first))).closed hclosed)

theorem punctually_shutdown (pools : List ι) (timeout : Nat) (m : Machine W ι R) :
    m.Punctually (m.shutdown pools timeout).2 := by
  have hclosing := punctually_close pools m
  have hwaiting := punctually_awaitIdle pools timeout (pools.foldl close m)
  unfold shutdown
  dsimp only
  split
  · exact hclosing.trans hwaiting
  · have hraised := hwaiting.trans (.single .interrupts trivial)
    have hlast := hraised.trans (punctually_awaitIdle pools grace _)
    refine hclosing.trans (hlast.trans (punctually_cancel _ _ fun pool hpool => ?_))
    -- The pools have been closed first, and nothing opens them again.
    obtain ⟨events, hevents⟩ := hlast.turns
    exact hevents.step.closed (closed_foldl_close pools m (Or.inl (List.mem_filter.mp hpool).1))

/-! ## Without a shutdown -/

/-- A task that goes on does not end as a cancelled one. -/
theorem cancelled_of_resume {task : Task W ι R} {id : Nat}
    (h : (id, .cancelled) ∈ (resume task m).ended) : (id, .cancelled) ∈ m.ended := by
  obtain ⟨world, started, -, hrests⟩ := rests_resume task m
  generalize resume task m = m' at h hrests
  cases hrests with
  | waits wait _ => exact h
  | finishes result => exact (List.mem_cons.mp h).resolve_left (by simp)
  | breaks => exact (List.mem_cons.mp h).resolve_left (by simp)

theorem cancelled_of_advanceTo {id : Nat} (h : (id, .cancelled) ∈ (m.advanceTo moment).ended) :
    (id, .cancelled) ∈ m.ended := by
  refine (drive_induction (P := fun x => (id, .cancelled) ∈ x.ended → (id, .cancelled) ∈ m.ended)
    (fun x x' hx hstep hmem => ?_) fun hmem => hmem).1 h
  unfold step? at hstep
  split at hstep
  · exact absurd hstep (by simp)
  · split at hstep
    · obtain rfl := Option.some.inj hstep
      have hbefore := cancelled_of_resume hmem
      exact hx hbefore
    · exact absurd hstep (by simp)

end MenuActions.Schedule.Machine
