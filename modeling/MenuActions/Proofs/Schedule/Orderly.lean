import Mathlib.Order.Defs.PartialOrder
import MenuActions.Schedule.Process

/-!
# Orderly processes

A process is orderly when it never breaks down, changes the world only in ways that keep an
invariant, and waits only for tasks that it has just started itself, on pools of a lower rank.  Its
changes lead forward in a preorder of worlds, so what it has seen of the world stays true while other
tasks run.

Orderly processes compose along `bind` and `sequence`, and they stay orderly while the world goes on.
-/

namespace MenuActions.Schedule

variable {W ι R : Type} [Preorder W] {inv : W → Prop} {rank : ι → Nat} {level : Nat} {w w' : W}

namespace Process

/-- A process that is orderly at some level from a world on. -/
inductive Orderly (inv : W → Prop) (rank : ι → Nat) : Nat → Process W ι R → W → Prop
  | done {level : Nat} {result : R} {w : W} : Orderly inv rank level (.done result) w
  /-- A change keeps the invariant in every later world, and what follows is orderly after it. -/
  | act {level : Nat} {effect : Nat → W → W} {next : W → Process W ι R} {w : W} :
      (∀ w', w ≤ w' → inv w' → ∀ now, w' ≤ effect now w' ∧ inv (effect now w')) →
      (∀ w', w ≤ w' → inv w' → ∀ now, Orderly inv rank level (next w') (effect now w')) →
      Orderly inv rank level (.act effect next) w
  | sleep {level ms : Nat} {next : Process W ι R} {w : W} :
      Orderly inv rank level next w → Orderly inv rank level (.sleep ms next) w
  | pause {level ms : Nat} {next : Bool → Process W ι R} {w : W} :
      (∀ interrupted, Orderly inv rank level (next interrupted) w) →
      Orderly inv rank level (.pause ms next) w
  /-- A task is started on any pool and left to itself. -/
  | start {level : Nat} {pool : ι} {body : Process W ι R} {next : Option Nat → Process W ι R}
      {w : W} :
      Orderly inv rank (rank pool) body w → (∀ task, Orderly inv rank level (next task) w) →
      Orderly inv rank level (.spawn pool body next) w
  /-- A task is started on a pool of a lower rank and waited for. -/
  | call {level : Nat} {pool : ι} {body : Process W ι R} {next : Option Nat → Process W ι R}
      {k : Nat → Option R → Process W ι R} {w : W} :
      rank pool < level → Orderly inv rank (rank pool) body w →
      Orderly inv rank level (next none) w → (∀ task, next (some task) = .join task (k task)) →
      (∀ task result, Orderly inv rank level (k task result) w) →
      Orderly inv rank level (.spawn pool body next) w

/-- An orderly process may start later. -/
theorem Orderly.mono {p : Process W ι R} (h : p.Orderly inv rank level w) :
    ∀ {w' : W}, w ≤ w' → p.Orderly inv rank level w' := by
  induction h with
  | done => exact fun _ => .done
  | act heffect hnext _ =>
      intro w' hle
      exact .act (fun v hv => heffect v (le_trans hle hv)) (fun v hv => hnext v (le_trans hle hv))
  | sleep _ ih => exact fun hle => .sleep (ih hle)
  | pause _ ih => exact fun hle => .pause fun interrupted => ih interrupted hle
  | start _ _ ihbody ih => exact fun hle => .start (ihbody hle) fun task => ih task hle
  | call hrank _ _ hjoin _ ihbody ihnone ih =>
      intro w' hle
      exact .call hrank (ihbody hle) (ihnone hle) hjoin fun task result => ih task result hle

theorem Orderly.bind {p : Process W ι R} {k : R → Process W ι R}
    (hp : p.Orderly inv rank level w)
    (hk : ∀ result w', w ≤ w' → (k result).Orderly inv rank level w') :
    (p.bind k).Orderly inv rank level w := by
  induction hp with
  | done => exact hk _ _ le_rfl
  | act heffect _ ih =>
      refine .act heffect fun w' hle hinv now => ih w' hle hinv now fun result v hv => ?_
      exact hk result v (le_trans hle (le_trans (heffect w' hle hinv now).1 hv))
  | sleep _ ih => exact .sleep (ih hk)
  | pause _ ih => exact .pause fun interrupted => ih interrupted hk
  | start hbody _ _ ih => exact .start hbody fun task => ih task hk
  | @call _ _ _ next k' _ hrank hbody _ hjoin _ _ ihnone ih =>
      refine .call hrank hbody (ihnone hk)
        (k := fun task result => (k' task result).bind k) ?_ fun task result => ih task result hk
      intro task
      rw [hjoin task]
      rfl

theorem Orderly.sequence {ps : List (Process W ι R)} {k : List R → Process W ι R}
    (hps : ∀ p ∈ ps, p.Orderly inv rank level w)
    (hk : ∀ results w', w ≤ w' → (k results).Orderly inv rank level w') :
    (Process.sequence ps k).Orderly inv rank level w := by
  induction ps generalizing k w with
  | nil => exact hk [] w le_rfl
  | cons p ps ih =>
      refine (hps p List.mem_cons_self).bind fun result w' hle => ih ?_ ?_
      · intro q hq
        exact (hps q (List.mem_cons_of_mem p hq)).mono hle
      · intro results v hv
        exact hk (result :: results) v (le_trans hle hv)

end Process

/-- What comes after a wait is orderly, and a task that is waited for is one of those that may be. -/
def Wait.Orderly (inv : W → Prop) (rank : ι → Nat) (level : Nat) (w : W) (allowed : Nat → Prop) :
    Wait W ι R → Prop
  | .permit body => body.Orderly inv rank level w
  | .moment _ next => next.Orderly inv rank level w
  | .signal _ next => ∀ interrupted, (next interrupted).Orderly inv rank level w
  | .ending task next => allowed task ∧ ∀ result, (next result).Orderly inv rank level w

theorem Wait.Orderly.mono {wait : Wait W ι R} {allowed allowed' : Nat → Prop}
    (h : wait.Orderly inv rank level w allowed) (hle : w ≤ w')
    (hallowed : ∀ task, allowed task → allowed' task) :
    wait.Orderly inv rank level w' allowed' := by
  cases wait with
  | permit body => exact Process.Orderly.mono h hle
  | moment due next => exact Process.Orderly.mono h hle
  | signal due next => exact fun interrupted => (h interrupted).mono hle
  | ending task next => exact ⟨hallowed task h.1, fun result => (h.2 result).mono hle⟩

end MenuActions.Schedule
