import Mathlib.Logic.Basic
import MenuActions.Json.Basic

/-!
# Tables by name

What is found in a table after a value has been put into it or a name has been taken out, and which
names it has then.
-/

namespace MenuActions

namespace Table

variable {α : Type} {name other : String}

theorem get?_cons (table : Table α) (entry : String × α) (name : String) :
    get? (entry :: table) name = if entry.1 = name then some entry.2 else table.get? name := by
  unfold get?
  by_cases h : entry.1 = name
  · simp [h]
  · simp [h]

/-- The value that was put under a name is found there. -/
@[simp] theorem get?_put_self (table : Table α) (name : String) (value : α) :
    (table.put name value).get? name = some value := by
  induction table with
  | nil => rw [put, get?_cons, if_pos rfl]
  | cons entry table ih =>
      by_cases h : entry.1 = name
      · rw [put, if_pos h, get?_cons, if_pos rfl]
      · rw [put, if_neg h, get?_cons, if_neg h, ih]

/-- Putting a value under a name leaves the other names as they are. -/
theorem get?_put_of_ne (h : other ≠ name) (table : Table α) (value : α) :
    (table.put name value).get? other = table.get? other := by
  induction table with
  | nil => rw [put, get?_cons, if_neg (Ne.symm h)]
  | cons entry table ih =>
      by_cases hentry : entry.1 = name
      · rw [put, if_pos hentry, get?_cons, get?_cons, if_neg (Ne.symm h),
          if_neg (fun hother => h (hother.symm.trans hentry))]
      · rw [put, if_neg hentry, get?_cons, get?_cons, ih]

theorem mem_names_iff {table : Table α} :
    name ∈ table.names ↔ (table.get? name).isSome = true := by
  induction table with
  | nil => exact iff_of_false List.not_mem_nil Bool.false_ne_true
  | cons entry table ih =>
      rw [names, List.map_cons, List.mem_cons, get?_cons]
      by_cases h : entry.1 = name
      · simp [h]
      · rw [if_neg h, ← ih]
        exact or_iff_right (Ne.symm h)

/-- A value that is put under a new name comes last; the names stay otherwise. -/
theorem names_put (table : Table α) (name : String) (value : α) :
    (table.put name value).names =
      if name ∈ table.names then table.names else table.names ++ [name] := by
  induction table with
  | nil => rfl
  | cons entry table ih =>
      by_cases h : entry.1 = name
      · rw [put, if_pos h]
        simp [names, h]
      · rw [put, if_neg h]
        simp only [names, List.map_cons, List.mem_cons] at ih ⊢
        rw [ih]
        by_cases hmem : name ∈ List.map Prod.fst table
        · simp [hmem]
        · simp [hmem, Ne.symm h]

@[simp] theorem mem_names_put {table : Table α} {value : α} :
    other ∈ (table.put name value).names ↔ other = name ∨ other ∈ table.names := by
  rw [names_put]
  split
  · rename_i hold
    exact ⟨Or.inr, fun h => h.elim (fun heq => heq ▸ hold) id⟩
  · rw [List.mem_append, List.mem_singleton]
    exact Or.comm

theorem nodup_names_put {table : Table α} (h : table.names.Nodup) (name : String) (value : α) :
    (table.put name value).names.Nodup := by
  rw [names_put]
  split
  · exact h
  · rename_i hnew
    exact List.nodup_append.mpr ⟨h, List.pairwise_singleton _ _, fun other hother _ hname heq =>
      hnew (List.mem_singleton.mp hname ▸ heq ▸ hother)⟩

theorem names_erase (table : Table α) (name : String) :
    (table.erase name).names = table.names.filter (· != name) := by
  rw [erase, names, names, List.filter_map]
  rfl

theorem get?_erase (table : Table α) (name other : String) :
    (table.erase name).get? other = if other = name then none else table.get? other := by
  induction table with
  | nil => simp [erase, get?]
  | cons entry table ih =>
      rw [erase] at ih ⊢
      rw [List.filter_cons, get?_cons]
      by_cases hentry : entry.1 = name
      · -- The entry goes, and another name never found it.
        rw [if_neg (by simp [hentry]), ih]
        by_cases hother : other = name
        · rw [if_pos hother, if_pos hother]
        · rw [if_neg hother, if_neg hother, if_neg (by rw [hentry]; exact Ne.symm hother)]
      · rw [if_pos (by simp [hentry]), get?_cons, ih]
        by_cases hother : other = name
        · rw [if_pos hother, if_pos hother, if_neg (by rw [hother]; exact hentry)]
        · rw [if_neg hother, if_neg hother]

end Table

end MenuActions
