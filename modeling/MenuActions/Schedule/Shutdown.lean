import MenuActions.Schedule.Machine

/-!
# Shutting pools down

A pool that is shut down takes no more work. Its tasks may run on for a time; after that they are
interrupted, and those that do not end soon after are cancelled.
-/

namespace MenuActions.Schedule

/-- What became of the tasks in flight. -/
structure Report where
  completed : Nat
  aborted : Nat
  deriving DecidableEq, Repr

/-- Two reports as one. -/
def Report.merge (a b : Report) : Report :=
  ⟨a.completed + b.completed, a.aborted + b.aborted⟩

/-- The report of no tasks. -/
def Report.zero : Report := ⟨0, 0⟩

namespace Machine

variable {W ι R : Type} [DecidableEq ι]

/-- How long interrupted tasks may take to end, in milliseconds. -/
def grace : Nat := 50

/-- Closes a pool. -/
def close (m : Machine W ι R) (pool : ι) : Machine W ι R :=
  m.updatePool pool fun p => { p with closed := true }

/-- Whether no task of these pools is in flight. -/
def allIdle (pools : List ι) (m : Machine W ι R) : Bool :=
  pools.all fun pool => m.inFlight pool == 0

/-- Lets time pass until no task of these pools is in flight, at most some milliseconds. -/
def awaitIdle (pools : List ι) (ms : Nat) (m : Machine W ι R) : Machine W ι R :=
  let m' := m.drive (allIdle pools) (some (m.now + ms))
  if m'.allIdle pools then m' else { m' with now := m.now + ms }

/-- Cancels the tasks of a pool that have not ended, and clears its table. -/
def cancel (m : Machine W ι R) (pool : ι) : Machine W ι R :=
  let cancelled := (m.tasksOf pool).map fun task => (task.id, Ending.cancelled)
  { m with
    tasks := m.tasks.filter fun task => task.pool ≠ pool
    ended := cancelled ++ m.ended }.updatePool pool fun p => { p with leftover := 0 }

/-- How many tasks stand in the table of a pool: those in flight and those that broke down. -/
def tableSize (m : Machine W ι R) (pool : ι) : Nat :=
  m.inFlight pool + (m.pools pool).leftover

/-- Shuts pools down side by side, and reports on each of them. -/
def shutdown (pools : List ι) (timeout : Nat) (m : Machine W ι R) :
    List Report × Machine W ι R :=
  let waited := (pools.foldl close m).awaitIdle pools timeout
  if waited.allIdle pools then (pools.map fun pool => ⟨m.inFlight pool, 0⟩, waited)
  else
    let last := waited.raiseInterrupt.awaitIdle pools grace
    let isLate := fun pool => waited.inFlight pool != 0
    let report := fun pool =>
      if isLate pool then
        (⟨m.inFlight pool - last.tableSize pool, last.tableSize pool⟩ : Report)
      else ⟨m.inFlight pool, 0⟩
    (pools.map report, (pools.filter isLate).foldl cancel last)

end Machine

end MenuActions.Schedule
