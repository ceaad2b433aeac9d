import MenuActions.Grammar.Weighted
import Mathlib.Algebra.BigOperators.Group.List.Basic
import Mathlib.Algebra.Order.Ring.Rat
import Mathlib.Order.Interval.Set.Basic
import Mathlib.Tactic.Linarith

/-!
# Choices in proportion to shares

How a choice among entries with shares comes out when the shares and the draws are exact.  The shares
stand next to each other on a line that begins at zero: `totalBefore` is where the share of a position
begins, and `FallsTo` says in whose share a draw lies.  A draw on the border of two shares belongs to the
former, and zero to the first.

`choose_proportional`: every draw below the total falls to one position; the entry there is chosen, within
the scan, so that the last entry never has to stand in; and the draws of a position fill an interval as long
as its share.

The scan is followed by induction over the entries, with any total in front of them (`firstReaching_eq`).
-/

namespace MenuActions.Grammar.Weighted

variable {α : Type}

/-- The total of the shares in front of a position. -/
def totalBefore (share : α → ℚ) (entries : List α) (i : ℕ) : ℚ :=
  ((entries.take i).map share).sum

/-- A draw lies in the share of a position. -/
def FallsTo (share : α → ℚ) (entries : List α) (draw : ℚ) (i : ℕ) : Prop :=
  i < entries.length ∧ (totalBefore share entries i < draw ∨ draw = 0 ∧ i = 0) ∧
    draw ≤ totalBefore share entries (i + 1)

/-- The position of the entry that a draw chooses: the choice among the entries with their positions. -/
def chosenAt (share : α → ℚ) (entries : List α) (draw : ℚ) : Option ℕ :=
  (choose (fun labelled => share labelled.1) 0 (fun _ => true) (fun _ => draw) entries.zipIdx).map
    Prod.snd

section Totals

variable (share : α → ℚ) (entries : List α)

@[simp] theorem totalBefore_zero : totalBefore share entries 0 = 0 := rfl

theorem totalBefore_cons (entry : α) (i : ℕ) :
    totalBefore share (entry :: entries) (i + 1) = share entry + totalBefore share entries i :=
  List.sum_cons

theorem totalBefore_succ {i : ℕ} (hi : i < entries.length) :
    totalBefore share entries (i + 1) = totalBefore share entries i + share entries[i] := by
  rw [totalBefore, List.take_succ_eq_append_getElem hi, List.map_append, List.sum_append]
  simp [totalBefore]

/-- The total that a choice sums up is that of all positions. -/
theorem foldl_share (start : ℚ) :
    entries.foldl (fun sum entry => sum + share entry) start =
      start + totalBefore share entries entries.length := by
  induction entries generalizing start with
  | nil => exact (add_zero start).symm
  | cons entry entries ih =>
      rw [List.foldl_cons, ih, List.length_cons, totalBefore_cons, add_assoc]

/-- The positions of the entries make no difference to the totals. -/
theorem totalBefore_zipIdx (i : ℕ) :
    totalBefore (fun labelled : α × ℕ => share labelled.1) entries.zipIdx i =
      totalBefore share entries i := by
  have hplain : (entries.zipIdx.take i).map Prod.fst = entries.take i := by
    rw [List.map_take, List.zipIdx_map_fst]
  rw [totalBefore, totalBefore, ← hplain, List.map_map]
  rfl

variable {share entries} (hpos : ∀ entry ∈ entries, 0 < share entry)
include hpos

theorem totalBefore_lt_succ {i : ℕ} (hi : i < entries.length) :
    totalBefore share entries i < totalBefore share entries (i + 1) := by
  have hshare := hpos entries[i] (List.getElem_mem hi)
  rw [totalBefore_succ share entries hi]
  linarith

theorem totalBefore_mono {i j : ℕ} (hij : i ≤ j) (hj : j ≤ entries.length) :
    totalBefore share entries i ≤ totalBefore share entries j := by
  induction j, hij using Nat.le_induction with
  | base => exact le_refl _
  | succ j hij ih =>
      have hstep := totalBefore_lt_succ hpos (Nat.lt_of_succ_le hj)
      exact le_trans (ih (Nat.le_of_succ_le hj)) (le_of_lt hstep)

theorem total_pos (hne : entries ≠ []) : 0 < totalBefore share entries entries.length := by
  have hlength := List.length_pos_iff.mpr hne
  have hfirst := totalBefore_lt_succ hpos hlength
  rw [totalBefore_zero] at hfirst
  exact lt_of_lt_of_le hfirst (totalBefore_mono hpos hlength (le_refl _))

end Totals

/-! ## Where a draw falls -/

section Falls

variable {share : α → ℚ} {entries : List α} {draw : ℚ}

theorem FallsTo.totalBefore_lt {i : ℕ} (h : FallsTo share entries draw i) (hi : i ≠ 0) :
    totalBefore share entries i < draw :=
  h.2.1.resolve_right fun hzero => hi hzero.2

/-- A draw lies in one share. -/
theorem existsUnique_fallsTo (hpos : ∀ entry ∈ entries, 0 < share entry) (hdraw : 0 ≤ draw)
    (hbelow : draw < totalBefore share entries entries.length) :
    ∃! i, FallsTo share entries draw i := by
  have hlength : 0 < entries.length := by
    by_contra hnone
    rw [Nat.eq_zero_of_not_pos hnone, totalBefore_zero] at hbelow
    linarith
  have hlast : draw ≤ totalBefore share entries (entries.length - 1 + 1) := by
    rw [Nat.sub_add_cancel hlength]
    exact le_of_lt hbelow
  -- The position is the first at whose end the draw is reached.
  have hreached : ∃ i, draw ≤ totalBefore share entries (i + 1) := ⟨_, hlast⟩
  have hfirst : FallsTo share entries draw (Nat.find hreached) := by
    refine ⟨?_, ?_, Nat.find_spec hreached⟩
    · have hle : Nat.find hreached ≤ entries.length - 1 := Nat.find_min' hreached hlast
      omega
    · cases hfound : Nat.find hreached with
      | zero => exact (lt_or_eq_of_le hdraw).imp id fun hzero => ⟨hzero.symm, rfl⟩
      | succ i => exact Or.inl (lt_of_not_ge (Nat.find_min hreached (by omega)))
  -- Of two positions, the later one begins where the draw has been reached already.
  have hnot_later {i j : ℕ} (hi : FallsTo share entries draw i) (hj : FallsTo share entries draw j) :
      ¬i < j := by
    intro hij
    have hbegins := hj.totalBefore_lt (by omega)
    have hends := totalBefore_mono hpos (Nat.succ_le_of_lt hij) (le_of_lt hj.1)
    have hreach := hi.2.2
    rw [Nat.succ_eq_add_one] at hends
    linarith
  exact ⟨Nat.find hreached, hfirst, fun i hi =>
    Nat.le_antisymm (Nat.le_of_not_lt (hnot_later hfirst hi)) (Nat.le_of_not_lt (hnot_later hi hfirst))⟩

/-- The scan stops at the first entry whose share, put behind a total, reaches the draw. -/
theorem firstReaching_eq {i : ℕ} (total : ℚ) (hi : i < entries.length)
    (hbefore : ∀ j < i, total + totalBefore share entries (j + 1) < draw)
    (hreach : draw ≤ total + totalBefore share entries (i + 1)) :
    firstReaching share draw total entries = entries[i]? := by
  induction entries generalizing i total with
  | nil => exact absurd hi (Nat.not_lt_zero i)
  | cons entry entries ih =>
      rw [firstReaching]
      cases i with
      | zero =>
          rw [totalBefore_cons, totalBefore_zero, add_zero] at hreach
          rw [if_pos hreach, List.getElem?_cons_zero]
      | succ i =>
          have hpast := hbefore 0 (Nat.succ_pos i)
          rw [totalBefore_cons, totalBefore_zero, add_zero] at hpast
          rw [if_neg (not_le_of_gt hpast), List.getElem?_cons_succ]
          refine ih (total + share entry) (Nat.lt_of_succ_lt_succ hi) (fun j hj => ?_) ?_
          · have hnext := hbefore (j + 1) (Nat.succ_lt_succ hj)
            rwa [totalBefore_cons, ← add_assoc] at hnext
          · rwa [totalBefore_cons, ← add_assoc] at hreach

/-- The scan finds the entry in whose share the draw lies. -/
theorem FallsTo.firstReaching_eq {i : ℕ} (h : FallsTo share entries draw i)
    (hpos : ∀ entry ∈ entries, 0 < share entry) :
    firstReaching share draw 0 entries = entries[i]? := by
  refine Weighted.firstReaching_eq 0 h.1 (fun j hj => ?_) (by rw [zero_add]; exact h.2.2)
  have hends := totalBefore_mono hpos (Nat.succ_le_of_lt hj) (le_of_lt h.1)
  rw [zero_add]
  exact lt_of_le_of_lt hends (h.totalBefore_lt (by omega))

/-- Something is drawn, as the total is positive, and the last entry does not have to stand in. -/
theorem FallsTo.choose_eq {i : ℕ} {generate : ℚ → ℚ}
    (h : FallsTo share entries (generate (totalBefore share entries entries.length)) i)
    (hpos : ∀ entry ∈ entries, 0 < share entry) :
    choose share 0 (fun _ => true) generate entries = entries[i]? := by
  have hne : entries ≠ [] := by
    rintro rfl
    exact absurd h.1 (Nat.not_lt_zero i)
  have htotal : totalBefore share entries entries.length > 0 := total_pos hpos hne
  rw [choose, foldl_share, zero_add]
  simp only [htotal, decide_true, Bool.and_self, if_true]
  rw [pick, h.firstReaching_eq hpos, List.getElem?_eq_getElem h.1, Option.some_or]

theorem FallsTo.chosenAt_eq {i : ℕ} (h : FallsTo share entries draw i)
    (hpos : ∀ entry ∈ entries, 0 < share entry) : chosenAt share entries draw = some i := by
  have hlabelled : FallsTo (fun labelled : α × ℕ => share labelled.1) entries.zipIdx draw i := by
    rw [FallsTo, totalBefore_zipIdx, totalBefore_zipIdx, List.length_zipIdx]
    exact h
  have hshares : ∀ labelled ∈ entries.zipIdx, 0 < share labelled.1 := fun labelled hmem =>
    hpos labelled.1 (List.fst_mem_of_mem_zipIdx hmem)
  have hchosen := @FallsTo.choose_eq _ (fun labelled : α × ℕ => share labelled.1) entries.zipIdx i
    (fun _ => draw) hlabelled hshares
  rw [chosenAt, hchosen, List.getElem?_zipIdx, List.getElem?_eq_getElem h.1]
  simp

end Falls

/-- Entries are chosen in proportion to their shares.  However numbers below the total are drawn, the draw
lies in the share of one position, and the entry there is chosen; the scan finds it, and never has to leave
the choice to the last entry.  The draws that choose a position are an interval that begins where the shares
in front of it end and is as long as its own share. -/
theorem choose_proportional (share : α → ℚ) {entries : List α} (hne : entries ≠ [])
    (hpos : ∀ entry ∈ entries, 0 < share entry) :
    let total := totalBefore share entries entries.length
    0 < total ∧
    (∀ generate : ℚ → ℚ, generate total ∈ Set.Ico 0 total →
      (∃! i, FallsTo share entries (generate total) i) ∧
        ∀ i, FallsTo share entries (generate total) i →
          choose share 0 (fun _ => true) generate entries = entries[i]? ∧
            firstReaching share (generate total) 0 entries = entries[i]? ∧
              chosenAt share entries (generate total) = some i) ∧
    ∀ (i : ℕ) (hi : i < entries.length),
      let draws := {draw | draw ∈ Set.Ico 0 total ∧ chosenAt share entries draw = some i}
      let start := totalBefore share entries i
      Set.Ioo start (start + share entries[i]) ⊆ draws ∧
        draws ⊆ Set.Icc start (start + share entries[i]) := by
  intro total
  refine ⟨total_pos hpos hne, fun generate hdraw => ⟨existsUnique_fallsTo hpos hdraw.1 hdraw.2, fun i hfalls =>
    ⟨hfalls.choose_eq hpos, hfalls.firstReaching_eq hpos, hfalls.chosenAt_eq hpos⟩⟩, ?_⟩
  intro i hi draws start
  have hend : start + share entries[i] = totalBefore share entries (i + 1) :=
    (totalBefore_succ share entries hi).symm
  rw [hend]
  -- At its two ends a draw may belong to a neighbour, so only what lies between is claimed whole.
  constructor
  · rintro draw ⟨hbegins, hends⟩
    have hfalls : FallsTo share entries draw i := ⟨hi, Or.inl hbegins, le_of_lt hends⟩
    have hstart : 0 ≤ start := totalBefore_mono hpos (Nat.zero_le i) (le_of_lt hi)
    have hstop : totalBefore share entries (i + 1) ≤ total := totalBefore_mono hpos hi (le_refl _)
    exact ⟨⟨by linarith, by linarith⟩, hfalls.chosenAt_eq hpos⟩
  · rintro draw ⟨hdraw, hchosen⟩
    obtain ⟨j, hfalls, -⟩ := existsUnique_fallsTo hpos hdraw.1 hdraw.2
    rw [hfalls.chosenAt_eq hpos, Option.some.injEq] at hchosen
    subst hchosen
    refine ⟨?_, hfalls.2.2⟩
    rcases hfalls.2.1 with hbegins | ⟨-, rfl⟩
    · exact le_of_lt hbegins
    · exact hdraw.1

/-- Draws on the borders between three shares, two of which are equal: each belongs to the share that ends
there. -/
theorem choose_proportional_borders :
    let shares : List ℚ := [8, 2, 2]
    choose id 0 (fun _ => true) (fun total => total * (2 / 3)) shares = some 8 ∧
      chosenAt id shares 10 = some 1 ∧
        {draw | draw ∈ Set.Ico 0 (totalBefore id shares 3) ∧ chosenAt id shares draw = some 2} ⊆
          Set.Icc (totalBefore id shares 2) (totalBefore id shares 2 + 2) := by
  intro shares
  have htotal : totalBefore id shares shares.length = 12 := by norm_num [shares, totalBefore]
  obtain ⟨-, hchoice, hdraws⟩ := @choose_proportional ℚ id shares (by simp [shares]) (by simp [shares])
  have hfirst : FallsTo id shares (12 * (2 / 3)) 0 := by norm_num [FallsTo, shares, totalBefore]
  have hsecond : FallsTo id shares 10 1 := by norm_num [FallsTo, shares, totalBefore]
  refine ⟨?_, ?_, (hdraws 2 (by decide)).2⟩
  · exact ((hchoice (fun total => total * (2 / 3)) (by rw [htotal]; norm_num)).2 0
      (by rw [htotal]; exact hfirst)).1
  · exact ((hchoice (fun _ => 10) (by rw [htotal]; norm_num)).2 1 hsecond).2.2

end MenuActions.Grammar.Weighted
