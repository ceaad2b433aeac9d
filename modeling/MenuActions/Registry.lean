import MenuActions.Handler

/-!
# The registry of handlers

Handlers by normalized name, in the order in which the names were first registered. A handler goes
by its type's name and by its aliases; a later registration of a name replaces the earlier one.
-/

namespace MenuActions

/-- Handlers by normalized name. -/
structure Registry where
  table : Table Handler

namespace Registry

/-- The registry without handlers. -/
def empty : Registry := ⟨[]⟩

/-- Registers a handler under its type's name and its aliases. -/
def register (registry : Registry) (handler : Handler) : Registry :=
  ⟨(handler.typeName :: handler.aliases).foldl
    (fun table name => table.put (Action.normalizeName name) handler) registry.table⟩

/-- The registry of some handlers and no others. -/
def ofHandlers (handlers : List Handler) : Registry :=
  handlers.foldl register empty

/-- The registry of the handlers that an engine comes with. -/
def builtin (config : Config) : Registry :=
  ofHandlers (Handler.builtin config)

/-- Takes a name out, and gives the handler that went by it. -/
def unregister (registry : Registry) (name : String) : Option Handler × Registry :=
  let key := Action.normalizeName name
  (registry.table.get? key, ⟨registry.table.erase key⟩)

/-- The handler that goes by a name: first the name as it is, then the normalized name. -/
def lookup (registry : Registry) (name : String) : Option Handler :=
  registry.table.get? name <|> registry.table.get? (Action.normalizeName name)

/-- Whether a handler goes by a name. -/
def contains (registry : Registry) (name : String) : Bool :=
  (registry.lookup name).isSome

/-- The names in the order in which they were registered. -/
def names (registry : Registry) : List String :=
  registry.table.names

/-- The names in the order of their characters. -/
def types (registry : Registry) : List String :=
  registry.names.mergeSort fun a b => a ≤ b

/-- How many names there are. -/
def size (registry : Registry) : Nat :=
  registry.table.length

/-- Whether there are no names. -/
def isEmpty (registry : Registry) : Bool :=
  registry.table.isEmpty

end Registry

end MenuActions
