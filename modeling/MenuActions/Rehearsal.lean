import MenuActions.Schedule.Machine
import MenuActions.Sequence

/-!
# Rehearsals

Sequences whose parts do nothing but take time: the outcome of each part is known beforehand, and
what can be observed is when each part begins and what becomes of the whole.
-/

namespace MenuActions

open Schedule

/-- A part that takes some milliseconds and has a known outcome. -/
structure RehearsedPart where
  value : String
  ms : Nat
  outcome : Outcome

/-- What a rehearsal shows. -/
structure Rehearsal where
  outcome : Outcome
  /-- The parts that ran and the moments at which they began. -/
  seen : List (String × Nat)
  /-- The moment at which the sequence ended. -/
  now : Nat

namespace Rehearsal

/-- What a part does: it notes its beginning, takes its time and has its outcome. -/
def part (p : RehearsedPart) : Process (List (String × Nat)) Empty Outcome :=
  .act (fun now seen => seen ++ [(p.value, now)]) fun _ => .sleep p.ms (.done p.outcome)

/-- The machine for a rehearsal: no pools, and perhaps an interrupt at some moment. -/
def stage (interruptAt : Option Nat) : Machine (List (String × Nat)) Empty Outcome :=
  { Machine.start [] nofun with interrupt := interruptAt }

/-- Rehearses a sequence. -/
def perform (type : String) (pacing : Nat) (interruptAt : Option Nat)
    (parts : List RehearsedPart) : Rehearsal :=
  let (outcome, machine) := (stage interruptAt).run (Sequence.run type pacing parts part)
  ⟨outcome.getD (.error (.panicked type "unknown panic")), machine.world, machine.now⟩

end Rehearsal

end MenuActions
