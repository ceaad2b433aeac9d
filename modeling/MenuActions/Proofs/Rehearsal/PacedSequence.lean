import MenuActions.Proofs.ActionResult.Aggregate
import MenuActions.Proofs.Schedule.RetiredPools
import MenuActions.Rehearsal

/-!
# The schedule of a paced sequence

When the parts of a sequence take known times, the moments at which they begin are known too:
`beginning` adds up the times and the pauses before a part.  An interrupt stops the sequence at the
first part, other than the very first, whose beginning it precedes or meets; parts that have begun run
to their end, and what becomes of a part never stops those after it.

* `run_runFrom` is the induction over the parts that are left, with the moment, the notes and the
  results of those before them.
* `perform_paced` is the theorem on whole sequences.
-/

namespace MenuActions.Rehearsal

open Schedule

/-- The moment at which the part at a place begins when nothing stops the sequence: after all parts
before it and the pauses behind them. -/
def beginning (pacing : Nat) (parts : List RehearsedPart) : Nat → Nat
  | 0 => 0
  | place + 1 =>
      beginning pacing parts place + (parts[place]?.map RehearsedPart.ms).getD 0 + pacing

/-- Whether the part at a place is still reached: the parts follow each other without a pause, or no
interrupt has come when the part begins. -/
def Reached (pacing : Nat) (interruptAt : Option Nat) (parts : List RehearsedPart) (place : Nat) :
    Prop :=
  pacing = 0 ∨ ∀ moment, interruptAt = some moment → beginning pacing parts place < moment

/-- What is seen of the first parts: each of them in its place, at the moment when it begins. -/
def notes (pacing : Nat) (parts : List RehearsedPart) (count : Nat) : List (String × Nat) :=
  (parts.take count).zipIdx.map fun (part, place) => (part.value, beginning pacing parts place)

/-- The results of the first parts. -/
def results (parts : List RehearsedPart) (count : Nat) : List ActionResult :=
  (parts.take count).map fun part => part.outcome.result

/-- The result of a sequence of which so many parts have run: the aggregate of all, or that of a
sequence cut short. -/
def ending (type : String) (parts : List RehearsedPart) (count : Nat) : ActionResult :=
  if count < parts.length then Sequence.cutShort type (results parts count) parts.length
  else ActionResult.aggregate type (results parts count) parts.length

/-- The machine of a rehearsal at some moment, with the notes so far. -/
def stageAt (interruptAt : Option Nat) (now : Nat) (seen : List (String × Nat)) :
    Machine (List (String × Nat)) Empty Outcome :=
  { stage interruptAt with now := now, world := seen }

variable {pacing now : Nat} {interruptAt : Option Nat} {parts : List RehearsedPart}
  {seen : List (String × Nat)}

/-- A later part begins no earlier. -/
theorem beginning_le (pacing : Nat) (parts : List RehearsedPart) {place later : Nat}
    (hle : place ≤ later) : beginning pacing parts place ≤ beginning pacing parts later := by
  induction hle with
  | refl => exact Nat.le_refl _
  | step _ ih =>
      rw [beginning]
      omega

/-- The parts before one that is reached are reached too. -/
theorem Reached.of_le {place later : Nat} (h : Reached pacing interruptAt parts later)
    (hle : place ≤ later) : Reached pacing interruptAt parts place :=
  h.imp_right fun hclear moment hmoment =>
    Nat.lt_of_le_of_lt (beginning_le pacing parts hle) (hclear moment hmoment)

/-! ## One part, one pause -/

theorem advanceTo_stageAt (moment : Nat) :
    (stageAt interruptAt now seen).advanceTo moment = stageAt interruptAt (max now moment) seen :=
  Machine.advanceTo_of_nil rfl moment

/-- A part makes its note at once and takes its time; an interrupt does not change that. -/
theorem run_part (part : RehearsedPart) (next : Outcome → Process (List (String × Nat)) Empty Outcome) :
    (stageAt interruptAt now seen).run ((Rehearsal.part part).bind next) =
      (stageAt interruptAt (now + part.ms) (seen ++ [(part.value, now)])).run (next part.outcome) := by
  show Machine.run (next part.outcome)
    (if part.ms = 0 then stageAt interruptAt now (seen ++ [(part.value, now)])
      else (stageAt interruptAt now (seen ++ [(part.value, now)])).advanceTo (now + part.ms)) = _
  by_cases hms : part.ms = 0
  · rw [if_pos hms, hms, Nat.add_zero]
  · rw [if_neg hms, advanceTo_stageAt, Nat.max_eq_right (Nat.le_add_right now part.ms)]

theorem interrupted_stageAt_iff :
    (stageAt interruptAt now seen).interrupted = true ↔
      ∃ moment, interruptAt = some moment ∧ moment ≤ now := by
  unfold Machine.interrupted
  cases interruptAt with
  | none => simp [stageAt, stage, Machine.start]
  | some moment =>
      show decide (moment ≤ now) = true ↔ _
      rw [decide_eq_true_iff]
      exact ⟨fun hle => ⟨moment, rfl, hle⟩, fun ⟨_, heq, hle⟩ => Option.some.inj heq ▸ hle⟩

/-- A pause that begins without an interrupt lasts until its end or until the interrupt. -/
theorem run_pause_of_off {ms : Nat} (next : Bool → Process (List (String × Nat)) Empty Outcome)
    (hms : ms ≠ 0) (hoff : (stageAt interruptAt now seen).interrupted = false) :
    let waited := stageAt interruptAt (max now (min (now + ms) (interruptAt.getD (now + ms)))) seen
    (stageAt interruptAt now seen).run (.pause ms next) = waited.run (next waited.interrupted) := by
  intro waited
  rw [Machine.run, hoff, if_neg Bool.false_ne_true, if_neg hms]
  simp only [advanceTo_stageAt]
  rfl

/-- A pause without an interrupt up to its end takes its whole time. -/
theorem run_pause_of_clear {ms : Nat} (next : Bool → Process (List (String × Nat)) Empty Outcome)
    (hms : ms ≠ 0) (hclear : ∀ moment, interruptAt = some moment → now + ms < moment) :
    (stageAt interruptAt now seen).run (.pause ms next) =
      (stageAt interruptAt (now + ms) seen).run (next false) := by
  have hquiet : ∀ later, later ≤ now + ms →
      (stageAt interruptAt later seen).interrupted = false := by
    intro later hlater
    rw [Bool.eq_false_iff, ne_eq, interrupted_stageAt_iff]
    rintro ⟨moment, hmoment, hcome⟩
    have hlt := hclear moment hmoment
    omega
  have hdue : min (now + ms) (interruptAt.getD (now + ms)) = now + ms := by
    cases hinterrupt : interruptAt with
    | none => exact Nat.min_self _
    | some moment => exact Nat.min_eq_left (Nat.le_of_lt (hclear moment hinterrupt))
  rw [run_pause_of_off next hms (hquiet now (Nat.le_add_right now ms)), hdue,
    Nat.max_eq_right (Nat.le_add_right now ms), hquiet _ (Nat.le_refl _)]

/-- An interrupt before a pause or during it, its end included, ends the pause when it comes. -/
theorem run_pause_of_interrupt {ms moment : Nat}
    (next : Bool → Process (List (String × Nat)) Empty Outcome) (hms : ms ≠ 0)
    (hinterrupt : interruptAt = some moment) (hmoment : moment ≤ now + ms) :
    (stageAt interruptAt now seen).run (.pause ms next) =
      (stageAt interruptAt (max now moment) seen).run (next true) := by
  have hon : ∀ later, moment ≤ later → (stageAt interruptAt later seen).interrupted = true :=
    fun later hlater => interrupted_stageAt_iff.mpr ⟨moment, hinterrupt, hlater⟩
  by_cases hbefore : moment ≤ now
  · rw [Machine.run, hon now hbefore, if_pos rfl, Nat.max_eq_left hbefore]
  · have hoff : (stageAt interruptAt now seen).interrupted = false := by
      rw [Bool.eq_false_iff, ne_eq, interrupted_stageAt_iff]
      rintro ⟨other, hother, hcome⟩
      rw [hinterrupt, Option.some.injEq] at hother
      omega
    have hdue : min (now + ms) (interruptAt.getD (now + ms)) = moment := by
      rw [hinterrupt, Option.getD_some, Nat.min_eq_right hmoment]
    rw [run_pause_of_off next hms hoff, hdue, hon _ (Nat.le_max_right now moment)]

/-! ## The parts that are left -/

theorem notes_succ {place : Nat} {part : RehearsedPart} (hpart : parts[place]? = some part) :
    notes pacing parts (place + 1) =
      notes pacing parts place ++ [(part.value, beginning pacing parts place)] := by
  obtain ⟨hlt, hget⟩ := List.getElem?_eq_some_iff.mp hpart
  unfold notes
  rw [List.take_add_one, hpart, Option.toList_some, List.zipIdx_append, List.map_append,
    List.length_take, Nat.min_eq_left (Nat.le_of_lt hlt), Nat.zero_add]
  rfl

theorem results_succ {place : Nat} {part : RehearsedPart} (hpart : parts[place]? = some part) :
    results parts (place + 1) = results parts place ++ [part.outcome.result] := by
  unfold results
  rw [List.take_add_one, hpart, Option.toList_some, List.map_append]
  rfl

theorem ending_of_lt {type : String} {count : Nat} (h : count < parts.length) :
    ending type parts count = Sequence.cutShort type (results parts count) parts.length :=
  if_pos h

theorem ending_length (type : String) (parts : List RehearsedPart) :
    ending type parts parts.length =
      ActionResult.aggregate type (results parts parts.length) parts.length :=
  if_neg (Nat.lt_irrefl _)

/-- Without pauses the next part follows at once. -/
theorem runFrom_unpaced {type : String} {total : Nat} {results : List ActionResult}
    {head : RehearsedPart} {rest : List RehearsedPart} (hpacing : pacing = 0) :
    Sequence.runFrom type pacing total part results (head :: rest) =
      (part head).bind fun outcome =>
        Sequence.runFrom type pacing total part (results ++ [outcome.result]) rest := by
  rw [Sequence.runFrom, hpacing, beq_self_eq_true, Bool.or_true, if_pos rfl]

/-- A part that is not the first one follows behind a pause. -/
theorem runFrom_paced {type : String} {total : Nat} {results : List ActionResult}
    {head : RehearsedPart} {rest : List RehearsedPart} (hresults : results ≠ [])
    (hpacing : pacing ≠ 0) :
    Sequence.runFrom type pacing total part results (head :: rest) =
      .pause pacing fun interrupted =>
        if interrupted then .done (.ok (Sequence.cutShort type results total))
        else
          (part head).bind fun outcome =>
            Sequence.runFrom type pacing total part (results ++ [outcome.result]) rest := by
  have hempty : results.isEmpty = false := List.isEmpty_eq_false_iff.mpr hresults
  have hzero : (pacing == 0) = false := beq_eq_false_iff_ne.mpr hpacing
  rw [Sequence.runFrom, hempty, hzero, Bool.or_self, if_neg Bool.false_ne_true]

/-- A part that is reached runs at its beginning. -/
theorem run_runFrom_of_reached {type : String} {total place : Nat} {head : RehearsedPart}
    {rest : List RehearsedPart} {results : List ActionResult} (hresults : results ≠ [])
    (hnow : now + pacing = beginning pacing parts place)
    (hreached : Reached pacing interruptAt parts place) :
    (stageAt interruptAt now seen).run
        (Sequence.runFrom type pacing total part results (head :: rest)) =
      (stageAt interruptAt (beginning pacing parts place + head.ms)
          (seen ++ [(head.value, beginning pacing parts place)])).run
        (Sequence.runFrom type pacing total part (results ++ [head.outcome.result]) rest) := by
  by_cases hpacing : pacing = 0
  · rw [runFrom_unpaced hpacing, ← hnow, hpacing, Nat.add_zero]
    exact run_part head _
  · have hclear := hreached.resolve_left hpacing
    rw [← hnow] at hclear ⊢
    rw [runFrom_paced hresults hpacing, run_pause_of_clear _ hpacing hclear]
    exact run_part head _

/-- The parts from a place on run as long as they are reached.  Those before it have run, and a pause
would end at the moment when the part at the place begins. -/
theorem run_runFrom (type : String) (rest : List RehearsedPart) {place now : Nat}
    (hrest : parts.drop place = rest) (hplace : 0 < place) (hle : place ≤ parts.length)
    (hnow : now + pacing = beginning pacing parts place) :
    ∃ count after, place ≤ count ∧ count ≤ parts.length ∧
      (∀ later, place ≤ later → later < parts.length →
        (later < count ↔ Reached pacing interruptAt parts later)) ∧
      (stageAt interruptAt now (notes pacing parts place)).run
          (Sequence.runFrom type pacing parts.length part (results parts place) rest) =
        (some (.ok (ending type parts count)), after) ∧
      after.world = notes pacing parts count := by
  -- The induction is over the parts that are left; the place moves on with them.
  induction rest generalizing place now with
  | nil =>
      obtain rfl : place = parts.length := Nat.le_antisymm hle (List.drop_eq_nil_iff.mp hrest)
      refine ⟨parts.length, stageAt interruptAt now (notes pacing parts parts.length), Nat.le_refl _,
        Nat.le_refl _, fun later hlater hlt => absurd hlater (Nat.not_le_of_lt hlt), ?_, rfl⟩
      rw [ending_length]
      rfl
  | cons head rest ih =>
      have hpart : parts[place]? = some head := by
        have hzero : (parts.drop place)[0]? = parts[place + 0]? := List.getElem?_drop
        rw [hrest, Nat.add_zero] at hzero
        exact hzero.symm
      have htail : parts.drop (place + 1) = rest := by
        rw [← List.tail_drop, hrest, List.tail_cons]
      obtain ⟨hlt, -⟩ := List.getElem?_eq_some_iff.mp hpart
      have hresults : results parts place ≠ [] := by
        apply List.ne_nil_of_length_pos
        rw [results, List.length_map, List.length_take]
        omega
      by_cases hreached : Reached pacing interruptAt parts place
      · have hnext : beginning pacing parts place + head.ms + pacing =
            beginning pacing parts (place + 1) := by
          rw [beginning, hpart]
          rfl
        obtain ⟨count, after, hcount, hcountle, hiff, hrun, hworld⟩ :=
          ih htail (Nat.succ_pos place) hlt hnext
        refine ⟨count, after, Nat.le_of_succ_le hcount, hcountle, ?_, ?_, hworld⟩
        · intro later hlater hlaterlt
          rcases Nat.eq_or_lt_of_le hlater with rfl | hbehind
          · exact iff_of_true hcount hreached
          · exact hiff later hbehind hlaterlt
        · rw [run_runFrom_of_reached hresults hnow hreached, ← notes_succ hpart,
            ← results_succ hpart]
          exact hrun
      · obtain ⟨hpacing, hstopped⟩ := not_or.mp hreached
        obtain ⟨moment, hmoment⟩ := Classical.not_forall.mp hstopped
        obtain ⟨hinterrupt, hmoment⟩ := Classical.not_imp.mp hmoment
        rw [Nat.not_lt, ← hnow] at hmoment
        refine ⟨place, stageAt interruptAt (max now moment) (notes pacing parts place), Nat.le_refl _,
          hle, ?_, ?_, rfl⟩
        · intro later hlater _
          exact iff_of_false (Nat.not_lt_of_le hlater) fun h => hreached (h.of_le hlater)
        · rw [runFrom_paced hresults hpacing, run_pause_of_interrupt _ hpacing hinterrupt hmoment,
            ending_of_lt hlt]
          rfl

/-! ## Whole sequences -/

/-- The first part runs at once, and the others as long as they are reached. -/
theorem run_sequence (type : String) (pacing : Nat) (interruptAt : Option Nat)
    (hparts : 2 ≤ parts.length) :
    ∃ count after, 0 < count ∧ count ≤ parts.length ∧
      (∀ place, 0 < place → place < parts.length →
        (place < count ↔ Reached pacing interruptAt parts place)) ∧
      (stage interruptAt).run (Sequence.run type pacing parts part) =
        (some (.ok (ending type parts count)), after) ∧
      after.world = notes pacing parts count := by
  obtain ⟨first, second, rest, rfl⟩ : ∃ first second rest, parts = first :: second :: rest := by
    match parts, hparts with
    | first :: second :: rest, _ => exact ⟨first, second, rest, rfl⟩
  have hbeginning : first.ms + pacing = beginning pacing (first :: second :: rest) 1 := by
    show _ = 0 + first.ms + pacing
    rw [Nat.zero_add]
  obtain ⟨count, after, hcount, hcountle, hiff, hrun, hworld⟩ :=
    @run_runFrom pacing interruptAt (first :: second :: rest) type (second :: rest) 1 first.ms rfl
      Nat.one_pos (Nat.le_of_succ_le hparts) hbeginning
  refine ⟨count, after, hcount, hcountle, fun place hplace => hiff place hplace, ?_, hworld⟩
  have hfirst := @run_part 0 interruptAt [] first fun outcome =>
    Sequence.runFrom type pacing (first :: second :: rest).length part [outcome.result] (second :: rest)
  rw [Nat.zero_add] at hfirst
  exact hfirst.trans hrun

/-- A paced sequence runs its first part at once, and each other part at its beginning exactly when
no interrupt has come by then; without pauses every part runs.  Each part runs at most once and in
order, whatever becomes of those before it.  When all have run, the result is their aggregate and has
no cause.  When only some have run, it is the aggregate of these out of all, marked as interrupted and
with the interruption as its cause, and it is no success. -/
theorem perform_paced (type : String) (pacing : Nat) (interruptAt : Option Nat)
    {parts : List RehearsedPart} (hparts : 2 ≤ parts.length) :
    ∃ count result, 0 < count ∧ count ≤ parts.length ∧
      (∀ place, 0 < place → place < parts.length →
        (place < count ↔ pacing = 0 ∨
          ∀ moment, interruptAt = some moment → beginning pacing parts place < moment)) ∧
      (perform type pacing interruptAt parts).seen =
        (parts.take count).zipIdx.map (fun (part, place) =>
          (part.value, beginning pacing parts place)) ∧
      (perform type pacing interruptAt parts).outcome = .ok result ∧
      result.Reports ((parts.take count).map fun part => part.outcome.result) parts.length ∧
      (count = parts.length →
        result = ActionResult.aggregate type (parts.map fun part => part.outcome.result)
          parts.length ∧ result.cause = none) ∧
      (count < parts.length →
        result = ((ActionResult.aggregate type
            ((parts.take count).map fun part => part.outcome.result) parts.length).put "interrupted"
              (.bool true)).withCause (.interruptedPacing count parts.length) ∧
          result.replacements.get? "interrupted" = some (.bool true) ∧ result.status ≠ .success) := by
  obtain ⟨count, after, hcount, hle, hiff, hrun, hworld⟩ :=
    run_sequence type pacing interruptAt hparts
  have hreports := ActionResult.reports_aggregate type (results parts count) parts.length
  refine ⟨count, ending type parts count, hcount, hle, hiff, ?_, ?_, ?_, ?_, ?_⟩
  · unfold perform
    rw [hrun]
    exact hworld
  · unfold perform
    rw [hrun]
    rfl
  · rcases Nat.lt_or_eq_of_le hle with hlt | rfl
    · rw [ending_of_lt hlt]
      exact (hreports.put "interrupted" (.bool true) (by decide)).withCause _
    · rw [ending_length]
      exact hreports
  · rintro rfl
    rw [ending_length, results, List.take_length]
    exact ⟨rfl, rfl⟩
  · intro hlt
    have hlength : (results parts count).length = count := by
      rw [results, List.length_map, List.length_take, Nat.min_eq_left hle]
    have hsuccesses : (results parts count).countP ActionResult.succeeded < parts.length :=
      Nat.lt_of_le_of_lt (Nat.le_trans List.countP_le_length (Nat.le_of_eq hlength)) hlt
    rw [ending_of_lt hlt]
    refine ⟨?_, Table.get?_put_self _ _ _, Status.ofCounts_ne_success hsuccesses⟩
    rw [Sequence.cutShort, hlength]
    rfl

/-- Three messages of which the second one fails; the interrupt comes in the pause behind it. -/
def threeMessages : List RehearsedPart :=
  [⟨"a", 100, .ok (.success MessageKey.messageSent)⟩, ⟨"b", 0, .error (.execution "message" "no")⟩,
    ⟨"c", 30, .ok (.success MessageKey.messageSent)⟩]

theorem perform_paced_interrupted :
    2 ≤ threeMessages.length ∧
      (perform "message" 500 (some 750) threeMessages).seen = [("a", 0), ("b", 600)] ∧
      ∃ result, (perform "message" 500 (some 750) threeMessages).outcome = .ok result ∧
        result.cause = some (.interruptedPacing 2 3) ∧ result.status ≠ .success ∧
        result.replacements.get? "success_count" = some (.int 1) := by
  have hparts : 2 ≤ threeMessages.length := by decide
  obtain ⟨count, result, -, hle, hiff, hseen, houtcome, hreports, -, hcut⟩ :=
    perform_paced "message" 500 (some 750) hparts
  have hsecond : 1 < count := by
    refine (hiff 1 Nat.one_pos (by decide)).mpr (Or.inr fun moment hmoment => ?_)
    rw [← Option.some.inj hmoment]
    decide
  have hthird : ¬2 < count := by
    intro hlt
    rcases (hiff 2 Nat.two_pos (by decide)).mp hlt with hzero | hclear
    · exact absurd hzero (by decide)
    · exact absurd (hclear 750 rfl) (by decide)
  obtain rfl : count = 2 := by omega
  obtain ⟨hresult, -, hstatus⟩ := hcut (by decide)
  exact ⟨hparts, hseen, result, houtcome, congrArg ActionResult.cause hresult, hstatus,
    hreports.successCount⟩

end MenuActions.Rehearsal
