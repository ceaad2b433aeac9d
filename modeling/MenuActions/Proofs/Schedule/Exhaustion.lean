import Mathlib.Logic.Relation
import MenuActions.Proofs.Schedule.Drive
import MenuActions.Schedule.Shutdown

/-!
# Exhaustion

A machine to which nothing is added has less to wait for after each operation, or nothing has
happened on it.  `Subsides` says so of two machines, and every operation that starts no process in
the foreground is of this kind.

The waits that give way to later ones come to an end, so along a sequence of such operations
something happens only finitely often; `eventually_same` is that argument on its own.
-/

namespace MenuActions.Schedule

open Relation

section Sequences

variable {α β : Type} {r : β → β → Prop}

/-- Along a sequence that descends in a well-founded order or stays the same, it stays the same from
some point on. -/
theorem eventually_same (hr : WellFounded r) (measure : α → β) (same : α → α → Prop)
    (hrefl : ∀ a, same a a) (htrans : ∀ a b c, same a b → same b c → same a c)
    (hmeasure : ∀ a b, same a b → measure b = measure a) {seq : Nat → α}
    (hseq : ∀ n, r (measure (seq (n + 1))) (measure (seq n)) ∨ same (seq n) (seq (n + 1))) :
    ∃ n, ∀ k, n ≤ k → same (seq n) (seq k) := by
  have hfrom : ∀ b n, measure (seq n) = b → ∃ n, ∀ k, n ≤ k → same (seq n) (seq k) := by
    intro b
    -- From every point on, the measure descends once more, or the sequence stays the same.
    induction b using hr.induction with
    | h b ih =>
        rintro n rfl
        by_cases hdescends : ∃ k, same (seq n) (seq k) ∧ r (measure (seq (k + 1))) (measure (seq k))
        · obtain ⟨k, hsame, hless⟩ := hdescends
          rw [hmeasure _ _ hsame] at hless
          exact ih _ hless (k + 1) rfl
        · -- Nothing descends while the sequence is the same, so it stays the same.
          refine ⟨n, fun k hk => ?_⟩
          induction hk with
          | refl => exact hrefl _
          | @step k _ hsame =>
              rcases hseq k with hless | hnext
              · exact absurd ⟨k, hsame, hless⟩ hdescends
              · exact htrans _ _ _ hsame hnext
  exact hfrom _ 0 rfl

theorem Replaces.cons {after before : List β} (h : Replaces r after before) (x : β) :
    Replaces r (x :: after) (x :: before) := by
  obtain ⟨y, rest, new, hbefore, hafter, hnew⟩ := h
  refine ⟨y, x :: rest, new, (hbefore.cons x).trans (List.Perm.swap y x rest), ?_, hnew⟩
  exact (hafter.cons x).trans List.perm_middle.symm

/-- Members that are left out are replaced by nothing. -/
theorem replaces_of_sublist {l k : List β} (h : l.Sublist k) :
    TransGen (Replaces r) l k ∨ k = l := by
  induction h with
  | slnil => exact Or.inr rfl
  | @cons l k x _ ih =>
      have hout : Replaces r k (x :: k) :=
        ⟨x, k, [], List.Perm.refl _, List.Perm.refl _, fun _ h => absurd h List.not_mem_nil⟩
      rcases ih with hless | rfl
      · exact Or.inl (hless.tail hout)
      · exact Or.inl (.single hout)
  | @cons_cons l k x _ ih =>
      rcases ih with hless | rfl
      · exact Or.inl (hless.lift (x :: ·) fun _ _ h => h.cons x)
      · exact Or.inr rfl

end Sequences

namespace Machine

variable {W ι R : Type} {m m' m'' : Machine W ι R}

/-- Nothing has happened between two machines, save that time has passed and pools may be closed. -/
structure Still (m m' : Machine W ι R) : Prop where
  waits : m'.waits = m.waits
  world : m'.world = m.world
  nextId : m'.nextId = m.nextId

/-- Waits have given way to later ones, or nothing has happened. -/
def Subsides (m m' : Machine W ι R) : Prop :=
  TransGen (Replaces Wait.After) m'.waits m.waits ∨ m.Still m'

theorem Still.refl (m : Machine W ι R) : m.Still m :=
  ⟨rfl, rfl, rfl⟩

theorem Still.trans (h : m.Still m') (h' : m'.Still m'') : m.Still m'' :=
  ⟨h'.waits.trans h.waits, h'.world.trans h.world, h'.nextId.trans h.nextId⟩

namespace Subsides

theorem trans (h : m.Subsides m') (h' : m'.Subsides m'') : m.Subsides m'' := by
  rcases h with hless | hstill
  · rcases h' with hless' | hstill'
    · exact Or.inl (hless'.trans hless)
    · exact Or.inl (hstill'.waits ▸ hless)
  · rcases h' with hless' | hstill'
    · exact Or.inl (hstill.waits ▸ hless')
    · exact Or.inr (hstill.trans hstill')

/-- What subsides under every operation of a list subsides under all of them in turn. -/
theorem foldl {f : Machine W ι R → ι → Machine W ι R}
    (hf : ∀ (x : Machine W ι R) (i : ι), x.Subsides (f x i)) (pools : List ι)
    (m : Machine W ι R) : m.Subsides (pools.foldl f m) := by
  induction pools generalizing m with
  | nil => exact Or.inr (.refl m)
  | cons i pools ih => exact (hf m i).trans (ih (f m i))

theorem raiseInterrupt (m : Machine W ι R) : m.Subsides m.raiseInterrupt := by
  unfold Machine.raiseInterrupt
  split
  · exact Or.inr (.refl m)
  · exact Or.inr ⟨rfl, rfl, rfl⟩

variable [DecidableEq ι]

theorem drive (enough : Machine W ι R → Bool) (limit : Option Nat) (m : Machine W ι R) :
    m.Subsides (m.drive enough limit) := by
  refine (drive_induction (P := m.Subsides) ?_ (Or.inr (.refl m))).1
  intro x x' hx hstep
  exact hx.trans (Or.inl (.single (replaces_step hstep)))

theorem advanceTo (moment : Nat) (m : Machine W ι R) : m.Subsides (m.advanceTo moment) :=
  (drive _ _ m).trans (Or.inr ⟨rfl, rfl, rfl⟩)

theorem awaitIdle (pools : List ι) (ms : Nat) (m : Machine W ι R) :
    m.Subsides (m.awaitIdle pools ms) := by
  have hdriven := drive (allIdle pools) (some (m.now + ms)) m
  unfold Machine.awaitIdle
  dsimp only
  split
  · exact hdriven
  · exact hdriven.trans (Or.inr ⟨rfl, rfl, rfl⟩)

theorem close (m : Machine W ι R) (pool : ι) : m.Subsides (m.close pool) :=
  Or.inr ⟨rfl, rfl, rfl⟩

theorem cancel (m : Machine W ι R) (pool : ι) : m.Subsides (m.cancel pool) := by
  have hsublist : (m.cancel pool).waits.Sublist m.waits := List.filter_sublist.map Task.wait
  rcases replaces_of_sublist hsublist with hless | hsame
  · exact Or.inl hless
  · exact Or.inr ⟨hsame.symm, rfl, rfl⟩

theorem shutdown (pools : List ι) (timeout : Nat) (m : Machine W ι R) :
    m.Subsides (m.shutdown pools timeout).2 := by
  have hwaited := (foldl close pools m).trans (awaitIdle pools timeout _)
  unfold Machine.shutdown
  dsimp only
  split
  · exact hwaited
  · have hraised := hwaited.trans (raiseInterrupt _)
    exact (hraised.trans (awaitIdle pools grace _)).trans (foldl cancel _ _)

end Subsides

end Machine

end MenuActions.Schedule
