import Mathlib.Data.List.Basic
import MenuActions.Registry
import MenuActions.Proofs.Json.Table
import MenuActions.Proofs.Action.WrittenText

/-!
# The history of a registry

A registry is a map from normalized names to handlers: whatever was registered, taken out and reloaded,
a name leads to the handler that was last written under its normalized form.  `holder` reads this off
the changes alone, `Refines` says how a registry answers when it holds such a map, and
`reads_last_written` says so of every history.

Every stored name is normalized, so that normalizing it once more gives nothing new: this is
`normalizeName_normalizeName`, and it makes looking a name up as it stands a shortcut and no more.
A change publishes a new table and leaves the earlier ones, which is why a snapshot stays as it is.
-/

namespace MenuActions

namespace Registry

/-! ## Changes -/

/-- What its users do to a registry. -/
inductive Change
  /-- Registers a handler under its type's name and its aliases. -/
  | register (handler : Handler)
  /-- Takes a name out. -/
  | unregister (name : String)
  /-- Puts other handlers in the place of all that are there. -/
  | reload (handlers : List Handler)

/-- The registry after a change. -/
def Change.apply : Change → Registry → Registry
  | register handler, registry => registry.register handler
  | unregister name, registry => (registry.unregister name).2
  | reload handlers, _ => ofHandlers handlers

/-- The registry that changes make out of one. -/
def after (registry : Registry) (changes : List Change) : Registry :=
  changes.foldl (fun registry change => change.apply registry) registry

/-! ## What was last written -/

/-- Whether a handler goes by a normalized name. -/
def goesBy (key : String) (handler : Handler) : Bool :=
  ((handler.typeName :: handler.aliases).map Action.normalizeName).contains key

/-- What a change writes under a normalized name: nothing, the name's removal, or a handler. -/
def Change.effect (key : String) : Change → Option (Option Handler)
  | register handler => if goesBy key handler then some (some handler) else none
  | unregister name => if Action.normalizeName name = key then some none else none
  | reload handlers => some (handlers.filter (goesBy key)).getLast?

/-- The handler last written under a normalized name and not removed since. -/
def holder (changes : List Change) (key : String) : Option Handler :=
  (changes.filterMap (Change.effect key)).getLast?.getD none

/-! ## What one change does -/

variable {registry : Registry} {key : String}

theorem get?_register (registry : Registry) (handler : Handler) (key : String) :
    (registry.register handler).table.get? key =
      if goesBy key handler then some handler else registry.table.get? key := by
  have hnames (names : List String) (table : Table Handler) :
      (names.foldl (fun table name => table.put (Action.normalizeName name) handler) table).get? key =
        if (names.map Action.normalizeName).contains key then some handler else table.get? key := by
    induction names generalizing table with
    | nil => rfl
    | cons name names ih =>
        rw [List.foldl_cons, ih, List.map_cons, List.contains_cons]
        by_cases hname : key = Action.normalizeName name
        · rw [hname, Table.get?_put_self]
          simp
        · rw [Table.get?_put_of_ne hname]
          simp [hname]
  exact hnames _ _

theorem get?_foldl_register (handlers : List Handler) (registry : Registry) (key : String) :
    (handlers.foldl register registry).table.get? key =
      (handlers.filter (goesBy key)).getLast?.or (registry.table.get? key) := by
  induction handlers generalizing registry with
  | nil => rfl
  | cons handler handlers ih =>
      rw [List.foldl_cons, ih, get?_register, List.filter_cons]
      by_cases h : goesBy key handler
      · rw [if_pos h, if_pos h, List.getLast?_cons]
        cases (handlers.filter (goesBy key)).getLast? <;> rfl
      · rw [if_neg h, if_neg h]

/-- After a change a name leads to what the change wrote under it, or else to what it led to before. -/
theorem get?_apply (change : Change) (registry : Registry) (key : String) :
    (change.apply registry).table.get? key = (change.effect key).getD (registry.table.get? key) := by
  cases change with
  | register handler =>
      rw [Change.apply, get?_register, Change.effect]
      split <;> rfl
  | unregister name =>
      rw [Change.apply, unregister, Table.get?_erase, Change.effect]
      by_cases h : key = Action.normalizeName name
      · rw [if_pos h, if_pos h.symm, Option.getD_some]
      · rw [if_neg h, if_neg (Ne.symm h), Option.getD_none]
  | reload handlers =>
      rw [Change.apply, ofHandlers, get?_foldl_register]
      exact Option.or_none

/-- After some changes a name leads to what was last written under it, or else to what it led to at
first. -/
theorem get?_after (changes : List Change) (registry : Registry) (key : String) :
    (registry.after changes).table.get? key =
      (changes.filterMap (Change.effect key)).getLast?.getD (registry.table.get? key) := by
  induction changes generalizing registry with
  | nil => rfl
  | cons change changes ih =>
      rw [after, List.foldl_cons, ← after, ih, get?_apply, List.filterMap_cons]
      cases change.effect key with
      | none => rfl
      | some written =>
          rw [Option.getD_some, List.getLast?_cons]
          rfl

/-! ## The stored names -/

/-- A registry stores each name once and in its normalized form. -/
structure Keyed (registry : Registry) : Prop where
  normal : ∀ key ∈ registry.names, Action.normalizeName key = key
  distinct : registry.names.Nodup

theorem keyed_empty : Keyed empty :=
  ⟨fun _ h => absurd h List.not_mem_nil, List.nodup_nil⟩

theorem Keyed.put (h : registry.Keyed) (name : String) (handler : Handler) :
    Keyed ⟨registry.table.put (Action.normalizeName name) handler⟩ := by
  refine ⟨fun key hkey => ?_, Table.nodup_names_put h.distinct _ _⟩
  rcases Table.mem_names_put.mp hkey with rfl | hold
  · exact Action.normalizeName_normalizeName name
  · exact h.normal key hold

theorem Keyed.register (h : registry.Keyed) (handler : Handler) :
    (registry.register handler).Keyed := by
  have hnames (names : List String) (table : Table Handler) (h : Keyed ⟨table⟩) :
      Keyed ⟨names.foldl (fun table name => table.put (Action.normalizeName name) handler) table⟩ := by
    induction names generalizing table with
    | nil => exact h
    | cons name names ih => exact ih _ (h.put name handler)
  exact hnames _ _ h

theorem keyed_ofHandlers (handlers : List Handler) : (ofHandlers handlers).Keyed := by
  have hfold (registry : Registry) (h : registry.Keyed) :
      (handlers.foldl Registry.register registry).Keyed := by
    induction handlers generalizing registry with
    | nil => exact h
    | cons handler handlers ih => exact ih _ (h.register handler)
  exact hfold _ keyed_empty

theorem Keyed.unregister (h : registry.Keyed) (name : String) : (registry.unregister name).2.Keyed := by
  have hnames : (registry.unregister name).2.names =
      registry.names.filter (· != Action.normalizeName name) := Table.names_erase _ _
  refine ⟨fun key hkey => h.normal key ?_, ?_⟩
  · rw [hnames] at hkey
    exact List.mem_of_mem_filter hkey
  · rw [hnames]
    exact h.distinct.filter _

theorem Keyed.apply (h : registry.Keyed) (change : Change) : (change.apply registry).Keyed := by
  cases change with
  | register handler => exact h.register handler
  | unregister name => exact h.unregister name
  | reload handlers => exact keyed_ofHandlers handlers

theorem Keyed.after (h : registry.Keyed) (changes : List Change) : (registry.after changes).Keyed := by
  induction changes generalizing registry with
  | nil => exact h
  | cons change changes ih => exact ih (h.apply change)

/-! ## A registry as a map -/

/-- A registry answers like a map from normalized names to handlers. -/
structure Refines (registry : Registry) (map : String → Option Handler) : Prop where
  /-- A name leads where its normalized form leads. -/
  lookup : ∀ name, registry.lookup name = map (Action.normalizeName name)
  /-- Who is found under a name as it stands is found under the normalized name. -/
  shortcut : ∀ name handler, registry.table.get? name = some handler →
    registry.table.get? (Action.normalizeName name) = some handler
  sorted : registry.types.Pairwise (· < ·)
  mem_types : ∀ name, name ∈ registry.types ↔
    Action.normalizeName name = name ∧ (registry.lookup name).isSome = true
  size : registry.size = registry.types.length

theorem Keyed.shortcut (h : registry.Keyed) {name : String} {handler : Handler}
    (hfound : registry.table.get? name = some handler) :
    registry.table.get? (Action.normalizeName name) = some handler := by
  have hmem : name ∈ registry.names := Table.mem_names_iff.mpr (Option.isSome_of_eq_some hfound)
  rw [h.normal name hmem, hfound]

theorem Keyed.lookup_eq (h : registry.Keyed) (name : String) :
    registry.lookup name = registry.table.get? (Action.normalizeName name) := by
  rw [lookup]
  cases hfound : registry.table.get? name with
  | none => rfl
  | some handler => rw [h.shortcut hfound]; rfl

theorem mem_types {name : String} : name ∈ registry.types ↔ name ∈ registry.names :=
  List.mem_mergeSort

theorem Keyed.types_sorted (h : registry.Keyed) : registry.types.Pairwise (· < ·) := by
  have hle : registry.types.Pairwise fun a b => decide (a ≤ b) = true :=
    @List.pairwise_mergeSort String (fun a b => a ≤ b)
      (fun a b c hab hbc => decide_eq_true
        (String.le_trans (of_decide_eq_true hab) (of_decide_eq_true hbc)))
      (fun a b => by
        rw [Bool.or_eq_true, decide_eq_true_eq, decide_eq_true_eq]
        exact String.le_total a b)
      registry.names
  have hne : registry.types.Pairwise (· ≠ ·) :=
    (List.mergeSort_perm _ _).nodup_iff.mpr h.distinct
  refine (hle.and hne).imp fun hab => ?_
  exact String.not_le.mp fun hba => hab.2 (String.le_antisymm (of_decide_eq_true hab.1) hba)

theorem Keyed.refines (h : registry.Keyed) : registry.Refines registry.table.get? where
  lookup := h.lookup_eq
  shortcut _ _ := h.shortcut
  sorted := h.types_sorted
  mem_types name := by
    rw [mem_types]
    constructor
    · intro hmem
      have hnormal := h.normal name hmem
      rw [h.lookup_eq, hnormal]
      exact ⟨rfl, Table.mem_names_iff.mp hmem⟩
    · rintro ⟨hnormal, hfound⟩
      rw [h.lookup_eq, hnormal] at hfound
      exact Table.mem_names_iff.mpr hfound
  size := by
    rw [types, List.length_mergeSort, names, Table.names, List.length_map, size]

/-! ## Published tables -/

/-- A registry that is shared: a change publishes a new table and leaves those published before. -/
structure Published where
  earlier : List Registry
  current : Registry

namespace Published

/-- What is published at first: a registry without handlers. -/
def start : Published := ⟨[], empty⟩

def publish (shared : Published) (change : Change) : Published :=
  ⟨shared.earlier ++ [shared.current], change.apply shared.current⟩

def run (shared : Published) (changes : List Change) : Published :=
  changes.foldl publish shared

/-- All published tables, the one in use last. -/
def tables (shared : Published) : List Registry :=
  shared.earlier ++ [shared.current]

/-- A snapshot is the place of the table in use. -/
def snapshot (shared : Published) : Nat :=
  shared.earlier.length

/-- The table that a snapshot holds. -/
def read (shared : Published) (snapshot : Nat) : Option Registry :=
  shared.tables[snapshot]?

theorem current_run (shared : Published) (changes : List Change) :
    (shared.run changes).current = shared.current.after changes := by
  induction changes generalizing shared with
  | nil => rfl
  | cons change changes ih => exact ih (shared.publish change)

/-- Tables are published behind those that are there. -/
theorem tables_run (shared : Published) (changes : List Change) :
    shared.tables <+: (shared.run changes).tables := by
  induction changes generalizing shared with
  | nil => exact List.prefix_rfl
  | cons change changes ih => exact (List.prefix_append _ _).trans (ih (shared.publish change))

theorem read_snapshot (shared : Published) : shared.read shared.snapshot = some shared.current :=
  List.getElem?_concat_length

theorem read_run_snapshot (shared : Published) (changes : List Change) :
    (shared.run changes).read shared.snapshot = some shared.current := by
  obtain ⟨newer, hnewer⟩ := shared.tables_run changes
  rw [read, ← hnewer, List.getElem?_append_left (by simp [tables, snapshot])]
  exact shared.read_snapshot

end Published

/-! ## Every history -/

/-- Whatever changes were made, a registry answers like the map of what was last written under each
normalized name; taking a name out leaves every other name as it was; and a snapshot holds the same
table whatever is changed later. -/
theorem reads_last_written (changes later : List Change) :
    let shared := Published.start.run changes
    shared.current.Refines (holder changes) ∧
      (∀ name : String, (shared.current.unregister name).1 = shared.current.lookup name ∧
        ∀ other : String, (shared.current.unregister name).2.lookup other =
          if Action.normalizeName other = Action.normalizeName name then none
          else shared.current.lookup other) ∧
      (shared.run later).read shared.snapshot = some shared.current := by
  intro shared
  have hcurrent : shared.current = empty.after changes := Published.current_run _ _
  have hkeyed : shared.current.Keyed := hcurrent ▸ keyed_empty.after changes
  have hmap : shared.current.table.get? = holder changes := by
    funext key
    rw [hcurrent, get?_after]
    rfl
  refine ⟨hmap ▸ hkeyed.refines, fun name => ⟨(hkeyed.lookup_eq name).symm, fun other => ?_⟩,
    shared.read_run_snapshot later⟩
  rw [(hkeyed.unregister name).lookup_eq, hkeyed.lookup_eq]
  exact Table.get?_erase _ _ _

/-- An alias takes over the name of another handler, which keeps its other name; and it leaves nobody
behind when it is taken out. -/
example :
    let added := Handler.added ⟨"Gate", [" CHECK "], "", .succeed⟩
    let changes := [Change.register .conditional, .register added]
    holder changes "check" = some added ∧ holder changes "conditional" = some .conditional ∧
      holder (changes ++ [.unregister "Check"]) "check" = none := by
  decide +kernel

end Registry

end MenuActions
