import MenuActions.Registry

/-!
# The builtin registry

The table of the handlers that an engine comes with, and the handlers that are found in it: a value
action under its name with the pause of the configuration, and the combinators.  None of them is a
handler that the host has added (`unextended_builtin`).
-/

namespace MenuActions

theorem normalizeName_typeName (action : ValueAction) :
    Action.normalizeName action.typeName = action.typeName := by
  cases action <;> decide +kernel

namespace Registry

variable (config : Config)

theorem table_builtin :
    (builtin config).table =
      (ValueAction.all.map fun action =>
        (action.typeName, .value action (config.pacing action))) ++
        [("conditional", .conditional), ("check", .conditional), ("random", .random),
          ("delay", .delay (min config.maxDelayMs Delay.cap))] := by
  have hconditional : Action.normalizeName "conditional" = "conditional" := by decide +kernel
  have hcheck : Action.normalizeName "check" = "check" := by decide +kernel
  have hrandom : Action.normalizeName "random" = "random" := by decide +kernel
  have hdelay : Action.normalizeName "delay" = "delay" := by decide +kernel
  simp only [builtin, Handler.builtin, ofHandlers, ValueAction.all, List.map_cons, List.map_nil,
    List.cons_append, List.nil_append, List.foldl_cons, List.foldl_nil, register, empty,
    Handler.typeName, Handler.aliases, normalizeName_typeName, hconditional, hcheck, hrandom, hdelay,
    Delay.typeName]
  simp [ValueAction.typeName, Table.put]

theorem lookup_builtin_value (action : ValueAction) :
    (builtin config).lookup action.typeName = some (.value action (config.pacing action)) := by
  rw [lookup, table_builtin]
  cases action <;> simp [ValueAction.all, ValueAction.typeName, Table.get?]

theorem lookup_builtin_check : (builtin config).lookup "check" = some .conditional := by
  rw [lookup, table_builtin]
  simp [ValueAction.all, ValueAction.typeName, Table.get?]

theorem lookup_builtin_random : (builtin config).lookup "random" = some .random := by
  rw [lookup, table_builtin]
  simp [ValueAction.all, ValueAction.typeName, Table.get?]

theorem lookup_builtin_delay :
    (builtin config).lookup Delay.typeName = some (.delay (min config.maxDelayMs Delay.cap)) := by
  rw [lookup, table_builtin]
  simp [ValueAction.all, ValueAction.typeName, Delay.typeName, Table.get?]

/-- No name leads to a handler that the host has added. -/
def Unextended (registry : Registry) : Prop :=
  ∀ name handler, registry.lookup name ≠ some (.added handler)

theorem exists_mem_of_lookup {registry : Registry} {name : String} {handler : Handler}
    (h : registry.lookup name = some handler) : ∃ entry ∈ registry.table, entry.2 = handler := by
  have hmem (key : String) (hfound : registry.table.get? key = some handler) :
      ∃ entry ∈ registry.table, entry.2 = handler := by
    obtain ⟨entry, hentry, hhandler⟩ := Option.map_eq_some_iff.mp hfound
    exact ⟨entry, List.mem_of_find?_eq_some hentry, hhandler⟩
  rw [lookup] at h
  cases hdirect : registry.table.get? name with
  | none =>
      rw [hdirect] at h
      exact hmem _ h
  | some found =>
      rw [hdirect] at h
      exact hmem name (hdirect.trans h)

theorem unextended_builtin : (builtin config).Unextended := by
  intro name handler hlookup
  obtain ⟨entry, hentry, hadded⟩ := exists_mem_of_lookup hlookup
  rw [table_builtin, List.mem_append, List.mem_map] at hentry
  rcases hentry with ⟨action, _, rfl⟩ | hcombinator
  · exact Handler.noConfusion hadded
  · simp only [List.mem_cons, List.not_mem_nil, or_false] at hcombinator
    rcases hcombinator with rfl | rfl | rfl | rfl <;> exact Handler.noConfusion hadded

end Registry

end MenuActions
