import MenuActions.Proofs.Schedule.Timeline

/-!
# Delayed turns

A task that sleeps for some milliseconds and then runs some items one after the other.  What has been seen
of it at any moment is said by `Pending` as long as it has not ended, and by `Over` when it has: it waits
for its permit, it sleeps, or it has gone through some of its items in turn since just the moment at which
its sleep was over.

`Kept.delayed` reads this off a log.
-/

namespace MenuActions.Schedule

variable {W ι R α : Type}

/-- What has been seen of a delayed task that was started at some moment and has not ended, and when it
obtained its permit, if it has. -/
inductive Pending (runs : α → Nat → List (Nat × Deed W ι R) → Nat → Process W ι R → Prop) (ms : Nat)
    (items : List α) (since now : Nat) : Option Nat → List (Nat × Sight W ι R) → Prop
  | queued : since ≤ now → Pending runs ms items since now none []
  | asleep {permitted : Nat} : since ≤ permitted → permitted ≤ now → now ≤ permitted + ms →
      Pending runs ms items since now (some permitted) [(permitted, .permitted)]
  /-- At least one of the items has not ended. -/
  | underway {permitted last : Nat} {trail : List (Nat × Deed W ι R)} {item : α} {rest : List α} :
      since ≤ permitted → last ≤ now → InTurn runs (permitted + ms) items trail last (item :: rest) →
      Pending runs ms items since now (some permitted) ((permitted, .permitted) :: seenDeeds trail)

/-- What has been seen of a delayed task that was started at some moment and has ended, and when it
obtained its permit, if it has. -/
inductive Over (runs : α → Nat → List (Nat × Deed W ι R) → Nat → Process W ι R → Prop) (ms : Nat)
    (items : List α) (since : Nat) : Option Nat → List (Nat × Sight W ι R) → Ending R → Prop
  | ran {permitted last : Nat} {trail : List (Nat × Deed W ι R)} {result : R} : since ≤ permitted →
      InTurn runs (permitted + ms) items trail last [] →
      Over runs ms items since (some permitted)
        ((permitted, .permitted) :: seenDeeds trail ++ [(last, .ended (.finished result))])
        (.finished result)
  | cancelled {now : Nat} {permit : Option Nat} {sights : List (Nat × Sight W ι R)} :
      Pending runs ms items since now permit sights →
      Over runs ms items since permit (sights ++ [(now, .ended .cancelled)]) .cancelled

section Permits

variable {runs : α → Nat → List (Nat × Deed W ι R) → Nat → Process W ι R → Prop} {ms since now : Nat}
  {items : List α} {permit : Option Nat} {sights : List (Nat × Sight W ι R)} {ending : Ending R}

/-- The permit is what is seen of a task after its start, if anything is. -/
theorem Pending.head?_eq (h : Pending runs ms items since now permit sights) :
    sights.head? = permit.map fun permitted => (permitted, .permitted) := by
  cases h with
  | queued _ => rfl
  | asleep _ _ _ => rfl
  | underway _ _ _ => rfl

/-- A task that has ended obtained its permit first, or it was cancelled without one. -/
theorem Over.head?_eq (h : Over runs ms items since permit sights ending) :
    (∃ permitted, permit = some permitted ∧ sights.head? = some (permitted, .permitted)) ∨
      permit = none ∧ ∃ moment, sights = [(moment, .ended .cancelled)] := by
  cases h with
  | @ran permitted _ _ _ _ _ => exact Or.inl ⟨permitted, rfl, rfl⟩
  | @cancelled now _ before hpending =>
      have hhead := hpending.head?_eq
      cases permit with
      | none =>
          obtain rfl : before = [] := List.head?_eq_none_iff.mp hhead
          exact Or.inr ⟨rfl, now, rfl⟩
      | some permitted => exact Or.inl ⟨permitted, rfl, by simp [hhead]⟩

end Permits

section Reading

open Process Sighting

variable {runs : α → Nat → List (Nat × Deed W ι R) → Nat → Process W ι R → Prop}
  {run : α → Process W ι R} {k : List R → Process W ι R} {ms t now : Nat} {items : List α} {pool : ι}
  {sights : List (Nat × Sight W ι R)}

theorem Life.pending {wait : Wait W ι R} (hk : ∀ results, ∃ result, k results = .done result)
    (hruns : ∀ item now trail last q, Timed now (run item) trail last q → q.StopsAt last →
      runs item now trail last q)
    (h : Life pool now ((t, .scheduled pool (.sleep ms (sequence (items.map run) k))) :: sights) wait) :
    ∃ permit, Pending runs ms items t now permit sights := by
  cases h with
  | queued _ ht => exact ⟨none, .queued ht⟩
  | @going _ permitted last _ q trail _ ht htimed hhalts hlast hahead =>
      cases htimed with
      | rest =>
          cases hhalts with
          | sleep _ _ _ => exact ⟨some _, .asleep ht hlast hahead⟩
      | sleep hrest =>
          obtain ⟨rest, hturn, hiff⟩ := hrest.inTurn_of_sequence hk hruns (Or.inr ⟨wait, hhalts⟩)
          cases rest with
          | nil =>
              obtain ⟨result, rfl⟩ := hiff.mp rfl
              exact absurd hhalts HaltsAt.not_done
          | cons item rest => exact ⟨some _, .underway ht hlast hturn⟩

theorem Ends.over {ending : Ending R} (hk : ∀ results, ∃ result, k results = .done result)
    (hruns : ∀ item now trail last q, Timed now (run item) trail last q → q.StopsAt last →
      runs item now trail last q)
    (hcrash : ∀ now trail last, ¬Timed now (.sleep ms (sequence (items.map run) k)) trail last .crash)
    (h : Ends pool ((t, .scheduled pool (.sleep ms (sequence (items.map run) k))) :: sights) ending) :
    ∃ permit, Over runs ms items t permit sights ending := by
  generalize hall : (t, .scheduled pool (.sleep ms (sequence (items.map run) k))) :: sights = all at h
  cases h with
  | @finishes _ permitted last body trail result ht htimed =>
      simp only [List.cons_append, List.cons.injEq, Prod.mk.injEq, Sight.scheduled.injEq] at hall
      obtain ⟨⟨rfl, -, rfl⟩, rfl⟩ := hall
      cases htimed with
      | sleep hrest =>
          obtain ⟨rest, hturn, hiff⟩ := hrest.inTurn_of_sequence hk hruns (Or.inl ⟨result, rfl⟩)
          obtain rfl := hiff.mpr ⟨result, rfl⟩
          exact ⟨some _, .ran ht hturn⟩
  | breaks _ htimed =>
      simp only [List.cons_append, List.cons.injEq, Prod.mk.injEq, Sight.scheduled.injEq] at hall
      obtain ⟨⟨rfl, -, rfl⟩, rfl⟩ := hall
      exact absurd htimed (hcrash _ _ _)
  | cancelled hlife =>
      obtain ⟨t', body, rest, rfl, -⟩ := hlife.startsWith
      obtain ⟨hfirst, rfl⟩ := List.cons.inj hall
      rw [← hfirst] at hlife
      obtain ⟨permit, hpending⟩ := hlife.pending hk hruns
      exact ⟨permit, .cancelled hpending⟩

/-- A delayed task that was seen to start is pending, or it is over; it was cancelled only when its pool is
closed. -/
theorem Kept.delayed {log : List (Sighting W ι R)} {m : Machine W ι R} {id : Nat}
    (hk : ∀ results, ∃ result, k results = .done result)
    (hruns : ∀ item now trail last q, Timed now (run item) trail last q → q.StopsAt last →
      runs item now trail last q)
    (hcrash : ∀ now trail last, ¬Timed now (.sleep ms (sequence (items.map run) k)) trail last .crash)
    (h : Kept log m)
    (hmem : ⟨t, id, .scheduled pool (.sleep ms (sequence (items.map run) k))⟩ ∈ log) :
    ∃ permit sights,
      of id log = (t, .scheduled pool (.sleep ms (sequence (items.map run) k))) :: sights ∧
      ((∃ task ∈ m.tasks, task.id = id ∧ task.pool = pool ∧ Pending runs ms items t m.now permit sights) ∨
        ∃ ending, (id, ending) ∈ m.ended ∧ Over runs ms items t permit sights ending ∧
          (ending = .cancelled → (m.pools pool).closed = true)) := by
  obtain ⟨sights, hsights, hwhere⟩ := h.reads hmem
  rw [hsights] at hwhere
  rcases hwhere with ⟨task, htask, hid, hpool, hlife⟩ | ⟨ending, hentry, hends, hclosed⟩
  · obtain ⟨permit, hpending⟩ := hlife.pending hk hruns
    exact ⟨permit, sights, hsights, Or.inl ⟨task, htask, hid, hpool, hpending⟩⟩
  · obtain ⟨permit, hover⟩ := hends.over hk hruns hcrash
    exact ⟨permit, sights, hsights, Or.inr ⟨ending, hentry, hover, hclosed⟩⟩

end Reading

end MenuActions.Schedule
