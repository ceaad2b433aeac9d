import MenuActions.Schedule.Shutdown

/-!
# Workloads

Plain tasks to load a pool with: each waits for some time, and leaves a note when it starts and when
it ends.
-/

namespace MenuActions.Schedule

/-- How a workload spends its time and how it ends. -/
inductive Mode
  /-- It waits and ends. -/
  | plain
  /-- It ends early when interrupted. -/
  | interruptible
  /-- It waits and breaks down. -/
  | panicking
  deriving DecidableEq, Repr

/-- What a workload makes a note of. -/
inductive Note
  | start
  | stop
  | interrupted
  deriving DecidableEq, Repr

/-- The note in a word. -/
def Note.text : Note → String
  | .start => "start"
  | .stop => "end"
  | .interrupted => "interrupted"

/-- A note of a task at a moment. -/
structure NoteEntry where
  task : String
  note : Note
  moment : Nat
  deriving DecidableEq, Repr

/-- Whether a note comes before another one in a report: the earlier one does, then the one of the
lesser task, and of one task at one moment the note of its start. -/
def NoteEntry.precedes (a b : NoteEntry) : Bool :=
  if a.moment ≠ b.moment then a.moment < b.moment
  else if a.task ≠ b.task then a.task < b.task
  else a.note == .start || b.note != .start

/-- Notes in the order of a report. -/
def NoteEntry.sort (notes : List NoteEntry) : List NoteEntry :=
  notes.mergeSort NoteEntry.precedes

/-- A task that waits for some milliseconds. -/
structure Workload where
  label : String
  mode : Mode
  ms : Nat
  deriving DecidableEq, Repr

namespace Workload

variable {ι : Type}

/-- Leaves a note and goes on. -/
def write (w : Workload) (note : Note) (next : Process (List NoteEntry) ι Unit) :
    Process (List NoteEntry) ι Unit :=
  .act (fun now notes => notes ++ [⟨w.label, note, now⟩]) fun _ => next

/-- What a workload does once it has its permit. -/
def process (w : Workload) : Process (List NoteEntry) ι Unit :=
  w.write .start <|
    match w.mode with
    | .plain => .sleep w.ms (w.write .stop (.done ()))
    | .interruptible => .pause w.ms fun interrupted =>
        w.write (if interrupted then .interrupted else .stop) (.done ())
    | .panicking => .sleep w.ms (w.write .stop .crash)

end Workload

end MenuActions.Schedule
