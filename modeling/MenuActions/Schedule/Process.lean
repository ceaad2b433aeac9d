import MenuActions.Schedule.Replacement

/-!
# Processes

What a task still has to do: changes to a world `W`, waits of several kinds, and tasks that it
starts on a pool from `ι`, until it ends with a result from `R`.

`wellFounded_after`: whatever a task does, it waits only finitely often, and so do the tasks it
starts.
-/

namespace MenuActions.Schedule

/-- What is left to do. -/
inductive Process (W ι R : Type)
  /-- Nothing: here is the result. -/
  | done (result : R)
  /-- Nothing: the task breaks down. -/
  | crash
  /-- Change the world, knowing the time, and go on with the world as it was before the change. -/
  | act (effect : Nat → W → W) (next : W → Process W ι R)
  /-- Wait for some milliseconds. -/
  | sleep (ms : Nat) (next : Process W ι R)
  /-- Wait for some milliseconds or until the interrupt signal, and learn whether it came. -/
  | pause (ms : Nat) (next : Bool → Process W ι R)
  /-- Start a task on a pool, and learn its number, or that the pool takes no more work. -/
  | spawn (pool : ι) (body : Process W ι R) (next : Option Nat → Process W ι R)
  /-- Wait until a task has ended, and learn its result, if it has one. -/
  | join (task : Nat) (next : Option R → Process W ι R)

namespace Process

variable {W ι R : Type}

/-- One process, and another one that continues with its result. -/
def bind : Process W ι R → (R → Process W ι R) → Process W ι R
  | done result, k => k result
  | crash, _ => crash
  | act effect next, k => act effect fun w => (next w).bind k
  | sleep ms next, k => sleep ms (next.bind k)
  | pause ms next, k => pause ms fun interrupted => (next interrupted).bind k
  | spawn pool body next, k => spawn pool body fun task => (next task).bind k
  | join task next, k => join task fun result => (next result).bind k

/-- Some processes one after the other, and a process that continues with all results. -/
def sequence : List (Process W ι R) → (List R → Process W ι R) → Process W ι R
  | [], k => k []
  | p :: ps, k => p.bind fun result => sequence ps fun results => k (result :: results)

end Process

/-- What a task waits for, and what it goes on with. -/
inductive Wait (W ι R : Type)
  /-- A permit of its pool; the task has not started. -/
  | permit (body : Process W ι R)
  /-- A moment. -/
  | moment (due : Nat) (next : Process W ι R)
  /-- A moment or the interrupt signal. -/
  | signal (due : Nat) (next : Bool → Process W ι R)
  /-- The end of another task. -/
  | ending (task : Nat) (next : Option R → Process W ι R)

variable {W ι R : Type}

/-- Whether a task that waits in this way has not started. -/
def Wait.queued : Wait W ι R → Bool
  | permit _ => true
  | _ => false

/-- The waits that a process may come to next, its own and those of the tasks that it starts. -/
def Process.Reaches : Process W ι R → Wait W ι R → Prop
  | done _, _ => False
  | crash, _ => False
  | act _ next, wait => ∃ w, (next w).Reaches wait
  | sleep _ next, wait => (∃ due, wait = .moment due next) ∨ next.Reaches wait
  | pause _ next, wait =>
      (∃ due, wait = .signal due next) ∨ ∃ interrupted, (next interrupted).Reaches wait
  | spawn _ body next, wait => wait = .permit body ∨ ∃ task, (next task).Reaches wait
  | join _ next, wait =>
      (∃ task, wait = .ending task next) ∨ ∃ result, (next result).Reaches wait

/-- The waits that may follow when this wait is over. -/
def Wait.After (later : Wait W ι R) : Wait W ι R → Prop
  | permit body => body.Reaches later
  | moment _ next => next.Reaches later
  | signal _ next => ∃ interrupted, (next interrupted).Reaches later
  | ending _ next => ∃ result, (next result).Reaches later

private theorem acc_of_reaches (p : Process W ι R) :
    ∀ wait : Wait W ι R, p.Reaches wait → Acc Wait.After wait := by
  induction p with
  | done _ => exact fun _ h => h.elim
  | crash => exact fun _ h => h.elim
  | act _ next ih => exact fun wait ⟨w, h⟩ => ih w wait h
  | sleep _ next ih =>
      rintro wait (⟨due, rfl⟩ | h)
      · exact ⟨_, fun later hl => ih later hl⟩
      · exact ih wait h
  | pause _ next ih =>
      rintro wait (⟨due, rfl⟩ | ⟨b, h⟩)
      · exact ⟨_, fun later ⟨b, hl⟩ => ih b later hl⟩
      · exact ih b wait h
  | spawn _ body next ihb ih =>
      rintro wait (rfl | ⟨task, h⟩)
      · exact ⟨_, fun later hl => ihb later hl⟩
      · exact ih task wait h
  | join _ next ih =>
      rintro wait (⟨task, rfl⟩ | ⟨result, h⟩)
      · exact ⟨_, fun later ⟨result, hl⟩ => ih result later hl⟩
      · exact ih result wait h

theorem wellFounded_after : WellFounded (Wait.After (W := W) (ι := ι) (R := R)) := by
  refine ⟨fun wait => ⟨_, fun later h => ?_⟩⟩
  cases wait with
  | permit body => exact acc_of_reaches body later h
  | moment _ next => exact acc_of_reaches next later h
  | signal _ next =>
      obtain ⟨b, h⟩ := h
      exact acc_of_reaches (next b) later h
  | ending _ next =>
      obtain ⟨result, h⟩ := h
      exact acc_of_reaches (next result) later h

end MenuActions.Schedule
