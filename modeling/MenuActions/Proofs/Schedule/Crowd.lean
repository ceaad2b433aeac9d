import Mathlib.Logic.Relation
import MenuActions.Proofs.Schedule.Interleaving
import MenuActions.Proofs.Schedule.Progress

/-!
# Processes side by side

Several processes in the foreground share one machine.  At any moment one of them does its next thing,
something happens on the machine, another process is begun, one is given up, or the host changes the
world.  Nothing says how long a process in the foreground takes for what it does.

When every process that is begun is orderly, the machine always is (`Crowd.Orderly.reaches`).
-/

namespace MenuActions.Schedule

open Relation

variable {W ι R : Type}

/-- A machine and the processes in its foreground. -/
structure Crowd (W ι R : Type) where
  machine : Machine W ι R
  callers : List (Process W ι R)

/-- The next thing that a process in the foreground does: the process and the machine after it. -/
inductive Machine.Advances (m : Machine W ι R) :
    Process W ι R → Process W ι R → Machine W ι R → Prop
  | act (effect : Nat → W → W) (next : W → Process W ι R) :
      Advances m (.act effect next) (next m.world) { m with world := effect m.now m.world }
  | sleep (ms : Nat) (next : Process W ι R) : Advances m (.sleep ms next) next m
  | pause (ms : Nat) (next : Bool → Process W ι R) (interrupted : Bool) :
      Advances m (.pause ms next) (next interrupted) m
  | spawn (pool : ι) (body : Process W ι R) (next : Option Nat → Process W ι R) :
      Advances m (.spawn pool body next) (next (m.spawn pool body).1) (m.spawn pool body).2
  /-- A task that is waited for has ended. -/
  | join {task : Nat} (next : Option R → Process W ι R) {ending : Ending R} :
      m.ending? task = some ending → Advances m (.join task next) (next ending.result?) m

namespace Crowd

variable [DecidableEq ι] {begins : Process W ι R → Prop} {changes : W → W → Prop}
  {c c' : Crowd W ι R}

/-- Something that happens in a crowd, in which some processes may be begun and the host may change the
world in some ways. -/
inductive Step (begins : Process W ι R → Prop) (changes : W → W → Prop) (c : Crowd W ι R) :
    Crowd W ι R → Prop
  | turn {event : Event W ι R} {m : Machine W ι R} :
      c.machine.Turn event m → Step begins changes c ⟨m, c.callers⟩
  | begun {p : Process W ι R} : begins p → Step begins changes c ⟨c.machine, p :: c.callers⟩
  | advances {p p' : Process W ι R} {before after : List (Process W ι R)} {m : Machine W ι R} :
      c.callers = before ++ p :: after → c.machine.Advances p p' m →
      Step begins changes c ⟨m, before ++ p' :: after⟩
  /-- A process has ended, or whoever waits for its result gives it up. -/
  | leaves {p : Process W ι R} {before after : List (Process W ι R)} :
      c.callers = before ++ p :: after → Step begins changes c ⟨c.machine, before ++ after⟩
  | host {w : W} : changes c.machine.world w →
      Step begins changes c ⟨{ c.machine with world := w }, c.callers⟩

/-- What comes of a crowd, step by step. -/
def Reaches (begins : Process W ι R → Prop) (changes : W → W → Prop) :
    Crowd W ι R → Crowd W ι R → Prop :=
  ReflTransGen (Step begins changes)

/-- What happens in a crowd happens on its machine, or leaves the machine as it is. -/
theorem Step.machine (h : Step begins changes c c') :
    c'.machine = c.machine ∨ ∃ event, c.machine.Step event c'.machine := by
  cases h with
  | turn hturn => exact Or.inr ⟨_, .turn hturn⟩
  | begun _ => exact Or.inl rfl
  | advances _ hadvances =>
      cases hadvances with
      | act effect next => exact Or.inr ⟨_, .changes _⟩
      | sleep ms next => exact Or.inl rfl
      | pause ms next interrupted => exact Or.inl rfl
      | spawn pool body next => exact Or.inr ⟨_, .starts pool body⟩
      | join next _ => exact Or.inl rfl
  | leaves _ => exact Or.inl rfl
  | host _ => exact Or.inr ⟨_, .changes _⟩

/-- The machine of a crowd goes through events of a machine. -/
theorem Reaches.trace (h : Reaches begins changes c c') :
    ∃ events, Machine.Trace Machine.Step c.machine events c'.machine := by
  induction h with
  | refl => exact ⟨[], .nil⟩
  | tail _ hstep ih =>
      obtain ⟨events, hevents⟩ := ih
      rcases hstep.machine with hsame | ⟨event, hevent⟩
      · exact ⟨events, hsame ▸ hevents⟩
      · exact ⟨_, hevents.snoc hevent⟩

end Crowd

/-! ## Orderly crowds -/

variable [Preorder W] {inv : W → Prop} {rank : ι → Nat} {level : Nat} {w w' : W}

/-- A process that is orderly, or that waits for a task and is orderly after that. -/
def Process.Underway (inv : W → Prop) (rank : ι → Nat) (level : Nat) (p : Process W ι R) (w : W) :
    Prop :=
  p.Orderly inv rank level w ∨
    ∃ task next, p = .join task next ∧ ∀ result, (next result).Orderly inv rank level w

theorem Process.Underway.mono {p : Process W ι R} (h : p.Underway inv rank level w) (hle : w ≤ w') :
    p.Underway inv rank level w' := by
  rcases h with horderly | ⟨task, next, rfl, hnext⟩
  · exact Or.inl (horderly.mono hle)
  · exact Or.inr ⟨task, next, rfl, fun result => (hnext result).mono hle⟩

namespace Machine.Orderly

variable {m m' : Machine W ι R}

/-- A process that is under way does its next thing on an orderly machine, and both stay what they
are. -/
theorem advances {p p' : Process W ι R} (h : m.Orderly inv rank none)
    (hp : p.Underway inv rank level m.world) (hadvances : m.Advances p p' m') :
    m.Follows inv rank m' ∧ p'.Underway inv rank level m'.world := by
  cases hadvances with
  | act effect next =>
      rcases hp with horderly | ⟨_, _, hjoin, _⟩
      · cases horderly with
        | act heffect hnext =>
            obtain ⟨hle, hinv⟩ := heffect m.world le_rfl h.world m.now
            exact ⟨⟨h.withWorld hle hinv, onward_withWorld hle⟩,
              Or.inl (hnext m.world le_rfl h.world m.now)⟩
      · exact absurd hjoin (by simp)
  | sleep ms next =>
      rcases hp with horderly | ⟨_, _, hjoin, _⟩
      · cases horderly with
        | sleep hnext => exact ⟨⟨h, .refl m⟩, Or.inl hnext⟩
      · exact absurd hjoin (by simp)
  | pause ms next interrupted =>
      rcases hp with horderly | ⟨_, _, hjoin, _⟩
      · cases horderly with
        | pause hnext => exact ⟨⟨h, .refl m⟩, Or.inl (hnext interrupted)⟩
      · exact absurd hjoin (by simp)
  | spawn pool body next =>
      have hon := onward_spawn m pool body
      rcases hp with horderly | ⟨_, _, hjoin, _⟩
      · cases horderly with
        | start hbody hnext =>
            exact ⟨⟨h.spawn hbody, hon⟩, Or.inl ((hnext _).mono hon.world)⟩
        | call _ hbody hnone hjoin hnext =>
            refine ⟨⟨h.spawn hbody, hon⟩, ?_⟩
            cases (m.spawn pool body).1 with
            | none => exact Or.inl (hnone.mono hon.world)
            | some task =>
                exact Or.inr ⟨task, _, hjoin task, fun result => (hnext task result).mono hon.world⟩
      · exact absurd hjoin (by simp)
  | join next hending =>
      rcases hp with horderly | ⟨_, _, hjoin, hnext⟩
      · exact nomatch horderly
      · obtain ⟨rfl, rfl⟩ := Process.join.inj hjoin
        exact ⟨⟨h, .refl m⟩, Or.inl (hnext _)⟩

variable [DecidableEq ι]

/-- An orderly machine stays orderly, whatever happens on it. -/
theorem turn {event : Event W ι R} (h : m.Orderly inv rank none) (hturn : m.Turn event m') :
    m.Follows inv rank m' := by
  cases hturn with
  | @goesOn task before after htasks _ _ =>
      have hperm : m.tasks.Perm (task :: (before ++ after)) := htasks ▸ List.perm_middle
      have hon : m.Onward { m with tasks := before ++ after } :=
        ⟨Nat.le_refl _, le_rfl, Nat.le_refl _⟩
      exact hon.follows (h.resume hperm m.now)
  | passes hnow => exact ⟨h.withNow _, hnow, le_rfl, Nat.le_refl _⟩
  | interrupts => exact ⟨h.raiseInterrupt, onward_raiseInterrupt m⟩
  | closes pool => exact h.close pool
  | @drops task before after htasks =>
      have hperm : m.tasks.Perm (task :: (before ++ after)) := htasks ▸ List.perm_middle
      have hended := (h.take hperm).finish .cancelled
      exact ⟨hended.updatePool (f := fun p => { p with leftover := p.leftover + 1 }) fun _ => rfl,
        Nat.le_refl _, le_rfl, Nat.le_refl _⟩
  | clears pool => exact h.cancel pool

end Machine.Orderly

namespace Crowd

/-- The machine is orderly, and every process in its foreground is under way. -/
structure Orderly (inv : W → Prop) (rank : ι → Nat) (level : Nat) (c : Crowd W ι R) : Prop where
  machine : c.machine.Orderly inv rank none
  callers : ∀ p ∈ c.callers, p.Underway inv rank level c.machine.world

namespace Orderly

variable [DecidableEq ι] {begins : Process W ι R → Prop} {changes : W → W → Prop}
  {c c' : Crowd W ι R}

/-- A step keeps a crowd orderly when the processes that are begun are orderly, and the host's changes
keep the invariant and lead forward. -/
theorem step (h : c.Orderly inv rank level)
    (hbegins : ∀ p, begins p → ∀ w, p.Orderly inv rank level w)
    (hchanges : ∀ w w', changes w w' → inv w → w ≤ w' ∧ inv w')
    (hstep : Step begins changes c c') : c'.Orderly inv rank level := by
  cases hstep with
  | turn hturn =>
      have hafter := h.machine.turn hturn
      exact ⟨hafter.orderly, fun p hp => (h.callers p hp).mono hafter.onward.world⟩
  | @begun p hp =>
      refine ⟨h.machine, fun q hq => ?_⟩
      rcases List.mem_cons.mp hq with rfl | hq
      · exact Or.inl (hbegins q hp _)
      · exact h.callers q hq
  | @advances p p' before after m hcallers hadvances =>
      have hp : p ∈ c.callers := by simp [hcallers]
      obtain ⟨hafter, hp'⟩ := h.machine.advances (h.callers p hp) hadvances
      refine ⟨hafter.orderly, fun q hq => ?_⟩
      -- The other processes have done nothing, and the world has gone on.
      have hothers : ∀ q ∈ before ++ after, q.Underway inv rank level m.world := by
        intro q hq
        have hbefore := h.callers q ((sublist_of_eq hcallers).subset hq)
        exact hbefore.mono hafter.onward.world
      rcases List.mem_append.mp hq with hbefore | hrest
      · exact hothers q (List.mem_append_left _ hbefore)
      · rcases List.mem_cons.mp hrest with rfl | hafter
        · exact hp'
        · exact hothers q (List.mem_append_right _ hafter)
  | @leaves p before after hcallers =>
      exact ⟨h.machine, fun q hq => h.callers q ((sublist_of_eq hcallers).subset hq)⟩
  | host hworld =>
      obtain ⟨hle, hinv⟩ := hchanges _ _ hworld h.machine.world
      exact ⟨h.machine.withWorld hle hinv, fun p hp => (h.callers p hp).mono hle⟩

theorem reaches (h : c.Orderly inv rank level)
    (hbegins : ∀ p, begins p → ∀ w, p.Orderly inv rank level w)
    (hchanges : ∀ w w', changes w w' → inv w → w ≤ w' ∧ inv w')
    (hreaches : Reaches begins changes c c') : c'.Orderly inv rank level := by
  induction hreaches with
  | refl => exact h
  | tail _ hstep ih => exact ih.step hbegins hchanges hstep

end Orderly

end Crowd

end MenuActions.Schedule
