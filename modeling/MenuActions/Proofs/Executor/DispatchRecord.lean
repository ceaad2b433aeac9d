import Mathlib.Data.List.Chain
import Mathlib.Order.Defs.PartialOrder
import MenuActions.Executor

/-!
# The record of dispatches

Every dispatch names the one that it was nested in, which stands before it in the record and is one
level above it.  So the dispatches form a forest, and a limit on their depth is one on its height:
`Forest.length_le`.

Records are compared by how far they go on: what is known of a number in a record stays true.
-/

namespace MenuActions

namespace Dispatch

/-- A dispatch at some depth has its place in a record: without a parent it is at depth zero, and
otherwise its parent stands in the record and is one level above it. -/
def Fits (record : List Dispatch) (parent : Option Nat) (depth : Nat) : Prop :=
  match parent with
  | none => depth = 0
  | some number => ∃ outer, record[number]? = some outer ∧ depth = outer.depth + 1

/-- No dispatch is nested deeper than a limit, and each has its place among those before it. -/
structure Forest (limit : Nat) (record : List Dispatch) : Prop where
  depth_le : ∀ dispatch ∈ record, dispatch.depth ≤ limit
  fits : ∀ number dispatch, record[number]? = some dispatch →
    Fits (record.take number) dispatch.parent dispatch.depth

/-- Numbers of dispatches, each of which was nested in the one before it. -/
def Nesting (record : List Dispatch) (path : List Nat) : Prop :=
  path.IsChain fun outer inner =>
    ∃ dispatch, record[inner]? = some dispatch ∧ dispatch.parent = some outer

theorem Fits.mono {record later : List Dispatch} {parent : Option Nat} {depth : Nat}
    (h : Fits record parent depth) (hlater : record <+: later) : Fits later parent depth := by
  cases parent with
  | none => exact h
  | some number =>
      obtain ⟨outer, houter, hdepth⟩ := h
      obtain ⟨hlt, _⟩ := List.getElem?_eq_some_iff.mp houter
      refine ⟨outer, ?_, hdepth⟩
      obtain ⟨rest, rfl⟩ := hlater
      rw [List.getElem?_append_left hlt]
      exact houter

namespace Forest

variable {limit : Nat} {record : List Dispatch}

theorem nil : Forest limit [] :=
  ⟨fun _ h => absurd h List.not_mem_nil, fun _ _ h => absurd h (by simp)⟩

/-- One more dispatch that has its place in the record. -/
theorem append {dispatch : Dispatch} (h : Forest limit record) (hdepth : dispatch.depth ≤ limit)
    (hfits : Fits record dispatch.parent dispatch.depth) : Forest limit (record ++ [dispatch]) := by
  refine ⟨fun other hother => ?_, fun number other hother => ?_⟩
  · rcases List.mem_append.mp hother with hold | hnew
    · exact h.depth_le other hold
    · rw [List.mem_singleton.mp hnew]
      exact hdepth
  · -- The dispatches before an old one are as they were; before the new one stand all the old ones.
    rcases Nat.lt_or_ge number record.length with hlt | hge
    · rw [List.getElem?_append_left hlt] at hother
      rw [List.take_append_of_le_length (Nat.le_of_lt hlt)]
      exact h.fits number other hother
    · rw [List.getElem?_append_right hge] at hother
      have hlast : number - record.length = 0 ∧ dispatch = other := by
        cases hoffset : number - record.length with
        | zero =>
            rw [hoffset] at hother
            exact ⟨rfl, Option.some.inj hother⟩
        | succ offset =>
            rw [hoffset] at hother
            exact absurd hother (by simp)
      obtain ⟨hoffset, rfl⟩ := hlast
      have hnumber : number = record.length := by omega
      rw [hnumber, List.take_left]
      exact hfits

/-- A dispatch is one level below its parent. -/
theorem depth_eq (h : Forest limit record) {outer inner : Nat} {dispatch : Dispatch}
    (hinner : record[inner]? = some dispatch) (hparent : dispatch.parent = some outer) :
    ∃ parent, record[outer]? = some parent ∧ dispatch.depth = parent.depth + 1 := by
  have hfits := h.fits inner dispatch hinner
  rw [hparent] at hfits
  obtain ⟨parent, hfound, hdepth⟩ := hfits.mono (List.take_prefix inner record)
  exact ⟨parent, hfound, hdepth⟩

/-- Below a dispatch there are no more levels than its depth leaves. -/
theorem depth_add_length_le (h : Forest limit record) {path : List Nat} :
    ∀ {number : Nat} {dispatch : Dispatch}, record[number]? = some dispatch →
      Nesting record (number :: path) → dispatch.depth + path.length ≤ limit := by
  induction path with
  | nil =>
      intro number dispatch hfound _
      exact h.depth_le dispatch (List.mem_of_getElem? hfound)
  | cons inner path ih =>
      intro number dispatch hfound hpath
      obtain ⟨⟨nested, hnested, hparent⟩, hrest⟩ := List.isChain_cons_cons.mp hpath
      obtain ⟨parent, hfound', hdepth⟩ := h.depth_eq hnested hparent
      obtain rfl : dispatch = parent := Option.some.inj (hfound.symm.trans hfound')
      have hbelow := ih hnested hrest
      rw [List.length_cons]
      omega

/-- A limit on the depth is a limit on the height: from a root down to a dispatch there are at most
as many levels as the limit says. -/
theorem length_le (h : Forest limit record) {path : List Nat} (hpath : Nesting record path) :
    path.length ≤ limit + 1 := by
  cases path with
  | nil => exact Nat.zero_le _
  | cons number path =>
      cases path with
      | nil => exact Nat.le_add_left 1 limit
      | cons inner path =>
          obtain ⟨⟨nested, hnested, hparent⟩, _⟩ := List.isChain_cons_cons.mp hpath
          obtain ⟨parent, hfound, _⟩ := h.depth_eq hnested hparent
          have hbelow := h.depth_add_length_le hfound hpath
          rw [List.length_cons]
          omega

end Forest

end Dispatch

/-- A later world has a record that goes on from that of the earlier one. -/
instance : Preorder Runtime where
  le earlier later := earlier.dispatches <+: later.dispatches
  le_refl _ := List.prefix_rfl
  le_trans _ _ _ := List.IsPrefix.trans

end MenuActions
