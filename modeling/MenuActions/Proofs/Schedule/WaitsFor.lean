import Mathlib.Data.Prod.Lex
import Mathlib.Logic.Relation
import MenuActions.Proofs.Schedule.OrderlyMachine

/-!
# What tasks wait for

A task waits for another one whose result it needs, for one that holds a permit which it needs, or for
one that is to be given such a permit before it.  On an orderly machine no task waits for itself in
this way, not even through others: along every wait the rank of the pool sinks, or it stays and a task
that waits for a permit gives way to one that holds one or to one that was started before.
-/

namespace MenuActions.Schedule

open Relation

variable {W ι R : Type}

/-- Whether the result of the task with some number is needed. -/
def Wait.needs (id : Nat) : Wait W ι R → Bool
  | ending task _ => task == id
  | _ => false

namespace Machine

variable {m : Machine W ι R}

/-- One task waits for another one, and neither has ended. -/
inductive WaitsFor (m : Machine W ι R) (task : Task W ι R) : Task W ι R → Prop
  /-- The result of the other one is needed. -/
  | result {other : Task W ι R} {next : Option R → Process W ι R} : task ∈ m.tasks →
      other ∈ m.tasks → task.wait = .ending other.id next → WaitsFor m task other
  /-- The other one holds a permit of the pool whose permit is needed. -/
  | permit {other : Task W ι R} : task ∈ m.tasks → other ∈ m.tasks → other.pool = task.pool →
      task.wait.queued = true → other.wait.queued = false → WaitsFor m task other
  /-- The other one needs a permit of the same pool and comes first. -/
  | turn {other : Task W ι R} : task ∈ m.tasks → other ∈ m.tasks → other.pool = task.pool →
      task.wait.queued = true → other.wait.queued = true → other.id < task.id →
      WaitsFor m task other

theorem WaitsFor.of_needs {task other : Task W ι R} (htask : task ∈ m.tasks) (hother : other ∈ m.tasks)
    (h : task.wait.needs other.id = true) : m.WaitsFor task other := by
  unfold Wait.needs at h
  split at h
  · rename_i id next hwait
    exact .result htask hother (by rw [hwait, beq_iff_eq.mp h])
  · exact absurd h (by simp)

/-- What sinks along every wait: the rank of the pool, then whether a permit is needed, then the number
of the task. -/
def waitOrder (rank : ι → Nat) (task : Task W ι R) : Nat ×ₗ Bool ×ₗ Nat :=
  toLex (rank task.pool, toLex (task.wait.queued, task.id))

variable [Preorder W] {inv : W → Prop} {rank : ι → Nat}

/-- The result of another task is only needed from a pool of a lower rank. -/
theorem Orderly.rank_lt (h : m.Orderly inv rank none) {task other : Task W ι R}
    (htask : task ∈ m.tasks) (hother : other ∈ m.tasks) {next : Option R → Process W ι R}
    (hwait : task.wait = .ending other.id next) : rank other.pool < rank task.pool := by
  have hwaits := h.waits task htask
  rw [hwait] at hwaits
  exact hwaits.1.2 other.pool (Or.inr ⟨other, hother, rfl, rfl⟩)

theorem Orderly.waitOrder_lt (h : m.Orderly inv rank none) {task other : Task W ι R}
    (hwaits : m.WaitsFor task other) : waitOrder rank other < waitOrder rank task := by
  cases hwaits with
  | result htask hother hwait => exact Prod.Lex.left _ _ (h.rank_lt htask hother hwait)
  | permit _ _ hpool hqueued hholds =>
      rw [waitOrder, waitOrder, hpool, hqueued, hholds]
      exact Prod.Lex.right _ (Prod.Lex.left _ _ Bool.false_lt_true)
  | turn _ _ hpool hqueued hqueued' hid =>
      rw [waitOrder, waitOrder, hpool, hqueued, hqueued']
      exact Prod.Lex.right _ (Prod.Lex.right _ hid)

/-- Along any number of waits the order sinks too. -/
theorem Orderly.waitOrder_lt_of_transGen (h : m.Orderly inv rank none) {task other : Task W ι R}
    (hpath : TransGen m.WaitsFor task other) : waitOrder rank other < waitOrder rank task := by
  induction hpath with
  | single hstep => exact h.waitOrder_lt hstep
  | tail _ hstep ih => exact lt_trans (h.waitOrder_lt hstep) ih

/-- No task of an orderly machine waits for itself, directly or through others. -/
theorem Orderly.acyclic (h : m.Orderly inv rank none) (task : Task W ι R) :
    ¬TransGen m.WaitsFor task task :=
  fun hcycle => lt_irrefl _ (h.waitOrder_lt_of_transGen hcycle)

/-- A task that holds a permit of a pool of the lowest rank waits for no task. -/
theorem Orderly.not_waitsFor (h : m.Orderly inv rank none) {task : Task W ι R}
    (hrank : rank task.pool = 0) (hholds : task.wait.queued = false) (other : Task W ι R) :
    ¬m.WaitsFor task other := by
  intro hwaits
  cases hwaits with
  | result htask hother hwait =>
      have hlt := h.rank_lt htask hother hwait
      omega
  | permit _ _ _ hqueued _ => exact absurd (hqueued.symm.trans hholds) (by simp)
  | turn _ _ _ hqueued _ _ => exact absurd (hqueued.symm.trans hholds) (by simp)

end Machine

end MenuActions.Schedule
