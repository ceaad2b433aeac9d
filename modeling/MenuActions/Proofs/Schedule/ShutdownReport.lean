import Mathlib
import MenuActions.Proofs.Schedule.Accounts
import MenuActions.Proofs.Schedule.RetiredPools
import MenuActions.Schedule.Workload

/-!
# The report of a shutdown

A shutdown should say of every task in flight whether it came to its end or was cancelled.  The report
is made up from the table of the pool, in which a task that broke down stays: when the tasks are not
done in time, such a task is counted with those that are cancelled, whenever it broke down.

`Tabled` says what stands in the table of a pool before anything has been cancelled, and
`shutdown_report` what the report of a shutdown is worth.
-/

namespace MenuActions.Schedule

variable {W R : Type}

/-- Something that is asked of a pool before it is shut down. -/
inductive Request (W R : Type)
  /-- To run a task. -/
  | spawn (body : Process W Unit R)
  /-- To let some milliseconds pass. -/
  | wait (ms : Nat)

/-- The machine of a pool after a request. -/
def Request.apply (m : Machine W Unit R) : Request W R → Machine W Unit R
  | .spawn body => (m.spawn () body).2
  | .wait ms => m.advanceTo (m.now + ms)

/-- Whether a task was cancelled. -/
def Ending.isCancelled : Ending R → Bool
  | .cancelled => true
  | _ => false

/-- Whether a task broke down. -/
def Ending.isPanicked : Ending R → Bool
  | .panicked => true
  | _ => false

namespace Machine

variable {ι : Type}

/-- The machine of a single pool for some workers, after some requests. -/
def serve (world : W) (workers : Nat) (requests : List (Request W R)) : Machine W Unit R :=
  requests.foldl Request.apply (start world fun _ => .ofWorkers workers)

/-- How many of the tasks that were started have ended in some way. -/
def countEnded (how : Ending R → Bool) (m : Machine W ι R) : Nat :=
  (List.range m.nextId).countP fun id => (m.ending? id).any how

/-- Since every task is accounted for, the entries of those that have ended can be counted instead. -/
theorem Accounted.countEnded_eq {m : Machine W ι R} {active : List Nat} (h : m.Accounted active)
    (how : Ending R → Bool) : m.countEnded how = m.ended.countP fun entry => how entry.2 := by
  let found : List Nat := (m.ended.filter fun entry => how entry.2).map Prod.fst
  have hfound : found.Nodup := h.nodup_ended.sublist (List.filter_sublist.map Prod.fst)
  have hperm : ((List.range m.nextId).filter fun id => (m.ending? id).any how).Perm found := by
    refine (List.perm_ext_iff_of_nodup (List.nodup_range.filter _) hfound).mpr fun id => ?_
    rw [List.mem_filter, List.mem_range, Option.any_eq_true]
    constructor
    · rintro ⟨_, ending, hending, hhow⟩
      have hentry := h.ending?_eq_some_iff.mp hending
      exact List.mem_map_of_mem (List.mem_filter.mpr ⟨hentry, hhow⟩)
    · intro hid
      obtain ⟨⟨id, ending⟩, hentry, rfl⟩ := List.mem_map.mp hid
      obtain ⟨hended, hhow⟩ := List.mem_filter.mp hentry
      refine ⟨h.lt_nextId ?_, ending, h.ending?_eq_some_iff.mpr hended, hhow⟩
      exact List.mem_append_right _ (List.mem_map_of_mem hended)
  rw [countEnded, List.countP_eq_length_filter, hperm.length_eq, List.length_map,
    List.countP_eq_length_filter]

/-- A closed pool never has more tasks in flight than before. -/
theorem inFlight_le_of_closed [DecidableEq ι] {m m' : Machine W ι R} {events : List (Event W ι R)}
    {pool : ι} (h : Trace Step m events m') (haccounted : m'.Accounted [])
    (hclosed : (m.pools pool).closed = true) : m'.inFlight pool ≤ m.inFlight pool := by
  have hnumbers : ((m'.tasksOf pool).map Task.id).Nodup :=
    haccounted.nodup_tasks.sublist (List.filter_sublist.map Task.id)
  have hsubset : (m'.tasksOf pool).map Task.id ⊆ (m.tasksOf pool).map Task.id := by
    intro id hid
    obtain ⟨task, htask, rfl⟩ := List.mem_map.mp hid
    obtain ⟨hlisted, hpool⟩ := mem_tasksOf.mp htask
    obtain ⟨old, hold, hsame, holdpool⟩ := h.exists_listed hclosed hlisted hpool
    exact hsame ▸ List.mem_map_of_mem (mem_tasksOf.mpr ⟨hold, holdpool⟩)
  have hle := (hnumbers.subperm hsubset).length_le
  rwa [List.length_map, List.length_map] at hle

/-- The pool's table holds an entry for each task that broke down, and nothing was cancelled yet. -/
structure Tabled (m : Machine W Unit R) : Prop where
  leftover : (m.pools ()).leftover = m.ended.countP fun entry => entry.2.isPanicked
  uncancelled : (m.ended.countP fun entry => entry.2.isCancelled) = 0

namespace Tabled

variable {m m' : Machine W Unit R}

theorem start (world : W) (workers : Nat) :
    (Machine.start world fun _ => .ofWorkers workers : Machine W Unit R).Tabled :=
  ⟨rfl, rfl⟩

/-- A task that comes to rest leaves an entry in the table only if it broke down. -/
theorem rests {id : Nat} (h : m.Tabled) (hrests : m.Rests id () m') : m'.Tabled := by
  cases hrests with
  | waits wait _ => exact ⟨h.leftover, h.uncancelled⟩
  | finishes result =>
      refine ⟨?_, ?_⟩
      · show (m.pools ()).leftover = ((id, Ending.finished result) :: m.ended).countP _
        rw [h.leftover, List.countP_cons_of_neg (by simp [Ending.isPanicked])]
      · show ((id, Ending.finished result) :: m.ended).countP _ = 0
        rw [List.countP_cons_of_neg (by simp [Ending.isCancelled]), h.uncancelled]
  | breaks =>
      refine ⟨?_, ?_⟩
      · show (m.pools ()).leftover + 1 = ((id, Ending.panicked) :: m.ended).countP _
        rw [h.leftover, List.countP_cons_of_pos rfl]
      · show ((id, Ending.panicked) :: m.ended).countP _ = 0
        rw [List.countP_cons_of_neg (by simp [Ending.isCancelled]), h.uncancelled]

theorem step {limit : Option Nat} (h : m.Tabled) (hstep : m.step? limit = some m') :
    m'.Tabled := by
  unfold step? at hstep
  split at hstep
  · exact absurd hstep (by simp)
  · rename_i moment task rest _
    split at hstep
    · obtain rfl := Option.some.inj hstep
      obtain ⟨world, started, _, hrests⟩ :=
        rests_resume task { m with now := moment, tasks := rest }
      have hmid : Tabled (enlist { m with now := moment, tasks := rest } world started) :=
        ⟨h.leftover, h.uncancelled⟩
      exact hmid.rests hrests
    · exact absurd hstep (by simp)

theorem drive (h : m.Tabled) (enough : Machine W Unit R → Bool) (limit : Option Nat) :
    (m.drive enough limit).Tabled :=
  (drive_induction (P := Tabled) (fun _ _ hx hstep => hx.step hstep) h).1

theorem apply (h : m.Tabled) (request : Request W R) : (request.apply m).Tabled := by
  cases request with
  | spawn body =>
      rw [Request.apply]
      unfold Machine.spawn
      split
      · exact h
      · exact ⟨h.leftover, h.uncancelled⟩
  | wait ms =>
      have hdriven := h.drive (fun _ => false) (some (m.now + ms))
      exact ⟨hdriven.leftover, hdriven.uncancelled⟩

theorem serve (world : W) (workers : Nat) (requests : List (Request W R)) :
    (Machine.serve world workers requests).Tabled :=
  List.foldlRecOn requests Request.apply (start world workers) fun _ h request _ => h.apply request

theorem close (h : m.Tabled) : (m.close ()).Tabled :=
  ⟨h.leftover, h.uncancelled⟩

theorem raiseInterrupt (h : m.Tabled) : m.raiseInterrupt.Tabled := by
  unfold Machine.raiseInterrupt
  split
  · exact h
  · exact ⟨h.leftover, h.uncancelled⟩

theorem awaitIdle (h : m.Tabled) (ms : Nat) : (m.awaitIdle [()] ms).Tabled := by
  have hdriven := h.drive (allIdle [()]) (some (m.now + ms))
  unfold Machine.awaitIdle
  dsimp only
  split
  · exact hdriven
  · exact ⟨hdriven.leftover, hdriven.uncancelled⟩

end Tabled

/-- A request is an interleaving of events too. -/
theorem trace_apply (m : Machine W Unit R) (request : Request W R) :
    ∃ events, Trace Step m events (request.apply m) := by
  cases request with
  | spawn body => exact ⟨_, .single (.starts () body)⟩
  | wait ms =>
      obtain ⟨events, hevents⟩ := turns_advanceTo (m.now + ms) m
      exact ⟨events, hevents.step⟩

theorem accounted_serve (world : W) (workers : Nat) (requests : List (Request W R)) :
    (serve world workers requests).Accounted [] := by
  refine List.foldlRecOn requests Request.apply (Accounted.start world _) fun m h request _ => ?_
  obtain ⟨events, hevents⟩ := trace_apply m request
  exact h.trace hevents

/-- What the shutdown of a single pool comes to: either its tasks are done in time, or some time is left
to those that are interrupted, and the others are cancelled. -/
theorem shutdown_cases (m : Machine W Unit R) (timeout : Nat) :
    let waited := (m.close ()).awaitIdle [()] timeout
    let last := waited.raiseInterrupt.awaitIdle [()] grace
    (waited.inFlight () = 0 ∧ m.shutdown [()] timeout = ([⟨m.inFlight (), 0⟩], waited)) ∨
      (waited.inFlight () ≠ 0 ∧
        m.shutdown [()] timeout =
          ([⟨m.inFlight () - last.tableSize (), last.tableSize ()⟩], last.cancel ())) := by
  intro waited last
  have hidle : waited.allIdle [()] = (waited.inFlight () == 0) := by simp [allIdle]
  unfold shutdown
  simp only [List.foldl_cons, List.foldl_nil, List.map_cons, List.map_nil, List.filter_cons,
    List.filter_nil]
  show (_ ∧ (if waited.allIdle [()] = true then _ else _) = _) ∨
    (_ ∧ (if waited.allIdle [()] = true then _ else _) = _)
  rw [hidle]
  by_cases hdone : waited.inFlight () = 0
  · left
    refine ⟨hdone, ?_⟩
    rw [if_pos (by simpa using hdone)]
  · right
    refine ⟨hdone, ?_⟩
    rw [if_neg (by simpa using hdone)]
    have hlate : (waited.inFlight () != 0) = true := by simpa using hdone
    show (([if (waited.inFlight () != 0) = true then _ else _] : List Report),
      (if (waited.inFlight () != 0) = true then [()] else []).foldl cancel last) = _
    rw [hlate]
    rfl

/-- Cancelling the tasks of the pool adds one cancelled task for each that was in flight. -/
theorem countP_ended_cancel (m : Machine W Unit R) (how : Ending R → Bool) :
    ((m.cancel ()).ended.countP fun entry => how entry.2) =
      (if how .cancelled then m.inFlight () else 0) + m.ended.countP fun entry => how entry.2 := by
  let cancelled := (m.tasksOf ()).map fun task => (task.id, (Ending.cancelled : Ending R))
  show (cancelled ++ m.ended).countP _ = _
  rw [List.countP_append, List.countP_map]
  congr 1
  show (m.tasksOf ()).countP (fun _ => how .cancelled) = _
  cases how .cancelled with
  | true => simp [inFlight]
  | false => simp

/-- While a shutdown waits, it cancels no task. -/
theorem Tabled.countEnded_waited {m : Machine W Unit R} (h : m.Tabled) (haccounted : m.Accounted [])
    (timeout : Nat) :
    ((m.close ()).awaitIdle [()] timeout).countEnded Ending.isCancelled = 0 := by
  obtain ⟨during, hduring⟩ := turns_awaitIdle [()] timeout (m.close ())
  have hclosing : Trace Step m (.closes () :: during) _ :=
    (Trace.single (.turn (.closes ()))).append hduring.step
  rw [(haccounted.trace hclosing).countEnded_eq]
  exact (h.close.awaitIdle timeout).uncancelled

/-- When a shutdown does not return in time, the tasks that are still in flight in the end are cancelled,
and there are not more of them than in the beginning; for every task that broke down there is an entry
in the table. -/
theorem Tabled.countEnded_late {m : Machine W Unit R} (h : m.Tabled) (haccounted : m.Accounted [])
    (timeout : Nat) :
    let waited := (m.close ()).awaitIdle [()] timeout
    let last := waited.raiseInterrupt.awaitIdle [()] grace
    (last.cancel ()).countEnded Ending.isCancelled = last.inFlight () ∧
      (last.cancel ()).countEnded Ending.isPanicked = (last.pools ()).leftover ∧
      last.inFlight () ≤ m.inFlight () := by
  intro waited last
  have hlast : last.Tabled := (h.close.awaitIdle timeout).raiseInterrupt.awaitIdle grace
  obtain ⟨during, hduring⟩ := turns_awaitIdle [()] timeout (m.close ())
  obtain ⟨ending, hending⟩ :=
    (Turns.single .interrupts).trans (turns_awaitIdle [()] grace waited.raiseInterrupt)
  have htrace : Trace Step (m.close ()) (during ++ ending) last := hduring.step.append hending.step
  have hclosed : (m.close ()).Accounted [] := haccounted.step (.turn (.closes ()))
  have hended : (last.cancel ()).Accounted [] := (hclosed.trace htrace).cancel ()
  refine ⟨?_, ?_, ?_⟩
  · rw [hended.countEnded_eq, countP_ended_cancel, hlast.uncancelled]
    rfl
  · rw [hended.countEnded_eq, countP_ended_cancel, hlast.leftover]
    exact Nat.zero_add _
  · show last.inFlight () ≤ (m.close ()).inFlight ()
    exact inFlight_le_of_closed htrace (hclosed.trace htrace) (closed_close m ())

/-- The report of a shutdown.  After any requests to a pool for any number of workers, the report of a
shutdown accounts for every task exactly once, as completed or as cancelled, just when the tasks are done
in time or no task has broken down.  If they are not, the tasks that broke down are reported as aborted
together with those that are cancelled. -/
theorem shutdown_report (world : W) (workers : Nat) (requests : List (Request W R)) (timeout : Nat) :
    let m := serve world workers requests
    let waited := (m.close ()).awaitIdle [()] timeout
    let after := (m.shutdown [()] timeout).2
    ∃ report, (m.shutdown [()] timeout).1 = [report] ∧
      report.aborted = after.countEnded Ending.isCancelled +
        (if waited.inFlight () = 0 then 0 else after.countEnded Ending.isPanicked) ∧
      report.completed = m.inFlight () - report.aborted ∧
      ((report.completed + report.aborted = m.inFlight () ∧
          report.aborted = after.countEnded Ending.isCancelled) ↔
        waited.inFlight () = 0 ∨ after.countEnded Ending.isPanicked = 0) := by
  intro m waited after
  have htabled : m.Tabled := .serve world workers requests
  have haccounted : m.Accounted [] := accounted_serve world workers requests
  rcases shutdown_cases m timeout with ⟨hdone, hshutdown⟩ | ⟨hlate, hshutdown⟩
  · have hafter : after = waited := congrArg Prod.snd hshutdown
    have hcancelled : after.countEnded Ending.isCancelled = 0 := by
      rw [hafter]
      exact htabled.countEnded_waited haccounted timeout
    refine ⟨_, congrArg Prod.fst hshutdown, ?_, rfl, ?_⟩
    · rw [hcancelled, if_pos hdone]
    · rw [hcancelled]
      exact ⟨fun _ => Or.inl hdone, fun _ => ⟨rfl, rfl⟩⟩
  · let last := waited.raiseInterrupt.awaitIdle [()] grace
    have hafter : after = last.cancel () := congrArg Prod.snd hshutdown
    have htable : last.tableSize () = last.inFlight () + (last.pools ()).leftover := rfl
    obtain ⟨hcancelled, hpanicked, hless⟩ :
        after.countEnded Ending.isCancelled = last.inFlight () ∧
          after.countEnded Ending.isPanicked = (last.pools ()).leftover ∧
          last.inFlight () ≤ m.inFlight () := by
      rw [hafter]
      exact htabled.countEnded_late haccounted timeout
    refine ⟨_, congrArg Prod.fst hshutdown, ?_, rfl, ?_⟩
    · rw [hcancelled, hpanicked, if_neg hlate]
      exact htable
    · rw [hcancelled, hpanicked]
      show (m.inFlight () - last.tableSize () + last.tableSize () = _ ∧ last.tableSize () = _) ↔ _
      constructor
      · rintro ⟨_, haborted⟩
        exact Or.inr (by omega)
      · rintro (hdone | hnone)
        · exact absurd hdone hlate
        · exact ⟨by omega, by omega⟩

/-- A task breaks down before the shutdown, and one is in flight that is not done in time: it alone is
cancelled, and two are reported as aborted. -/
theorem shutdown_report_panicked :
    let m : Machine (List NoteEntry) Unit Unit :=
      serve [] 1 [.spawn (Workload.mk "a" .panicking 0).process, .wait 0,
        .spawn (Workload.mk "b" .plain 1000).process, .wait 0]
    (m.shutdown [()] 10).1 = [⟨0, 2⟩] ∧ m.inFlight () = 1 ∧
      (m.shutdown [()] 10).2.countEnded Ending.isCancelled = 1 := by
  refine ⟨?_, ?_, ?_⟩
  · cbv
  · cbv
  · cbv

end Machine

end MenuActions.Schedule
