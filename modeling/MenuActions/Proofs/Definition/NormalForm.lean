import Mathlib.Data.List.Forall2
import MenuActions.Definition
import MenuActions.Proofs.Action.WrittenText

/-!
# The normal form of definitions

A document may give an action as raw text, as an object with a type and data, or as a pair; a definition
is written as a list of objects.  `ofJson?_eq_some_iff` says which documents are definitions, and of
which actions.

Reading a written definition always succeeds and changes no more than the types of its actions, which
are normalized (`ofJson?_toJson`).  The definitions that come back as they were are therefore those with
normalized types, and neither reading nor building gives any others, since normalizing a name a second
time changes nothing.
-/

namespace MenuActions.Definition

open MenuActions.Action

/-! ## Which documents are definitions -/

/-- An item of a list and the action that it gives.  An object may have more fields than the two that
are read. -/
inductive Gives : Json → Action → Prop
  | raw (raw : String) : Gives (.str raw) (.ofRaw raw)
  | object {fields : Table Json} {type data : String}
      (htype : Table.get? fields "type" = some (.str type))
      (hdata : Table.get? fields "data" = some (.str data)) : Gives (.obj fields) (.ofParts type data)
  | pair (type data : String) : Gives (.arr [.str type, .str data]) (.ofParts type data)

/-- A document and the definition that it stands for: a text gives one action, and a list gives one for
each of its items, in their order. -/
inductive Describes : Json → Definition → Prop
  | text (raw : String) : Describes (.str raw) (single (.ofRaw raw))
  | list {items : List Json} {actions : List Action} (hitems : List.Forall₂ Gives items actions) :
      Describes (.arr items) ⟨actions⟩

theorem item?_eq_some_iff {json : Json} {action : Action} :
    item? json = some action ↔ Gives json action := by
  constructor
  · intro h
    unfold item? at h
    split at h
    · cases h
      exact .raw _
    · split at h
      · rename_i htype hdata
        cases h
        exact .object htype hdata
      · cases h
    · cases h
      exact .pair _ _
    · cases h
  · intro h
    cases h with
    | raw raw => rfl
    | object htype hdata =>
        unfold item?
        simp only [htype, hdata]
    | pair type data => rfl

theorem items?_eq_some_iff {items : List Json} {actions : List Action} :
    items? items = some actions ↔ List.Forall₂ Gives items actions := by
  induction items generalizing actions with
  | nil =>
      rw [List.forall₂_nil_left_iff, items?, Option.some.injEq]
      exact eq_comm
  | cons json items ih =>
      rw [List.forall₂_cons_left_iff]
      constructor
      · intro h
        obtain ⟨action, haction, h⟩ := Option.bind_eq_some_iff.mp h
        obtain ⟨rest, hrest, h⟩ := Option.bind_eq_some_iff.mp h
        cases h
        exact ⟨action, rest, item?_eq_some_iff.mp haction, ih.mp hrest, rfl⟩
      · rintro ⟨action, rest, haction, hrest, rfl⟩
        rw [items?, item?_eq_some_iff.mpr haction, ih.mpr hrest]
        rfl

theorem ofJson?_eq_some_iff {json : Json} {definition : Definition} :
    ofJson? json = some definition ↔ Describes json definition := by
  constructor
  · intro h
    unfold ofJson? at h
    split at h
    · cases h
      exact .text _
    · obtain ⟨actions, hactions, rfl⟩ := Option.map_eq_some_iff.mp h
      exact .list (items?_eq_some_iff.mp hactions)
    · cases h
  · intro h
    cases h with
    | text raw => rfl
    | list hitems => rw [ofJson?, items?_eq_some_iff.mpr hitems, Option.map_some]

/-! ## Which definitions come back -/

/-- The types of all actions are normalized names. -/
def HasNormalTypes (definition : Definition) : Prop :=
  ∀ action ∈ definition.actions, normalizeName action.type = action.type

theorem gives_itemJson (action : Action) : Gives (itemJson action) (.ofParts action.type action.data) :=
  .object (by simp [Table.get?]) (by simp [Table.get?])

/-- A written definition is read with the types of its actions normalized, and is otherwise the same. -/
theorem ofJson?_toJson (definition : Definition) :
    ofJson? definition.toJson =
      some ⟨definition.actions.map fun action => .ofParts action.type action.data⟩ := by
  refine ofJson?_eq_some_iff.mpr (.list ?_)
  rw [List.forall₂_map_left_iff, List.forall₂_map_right_iff, List.forall₂_same]
  exact fun action _ => gives_itemJson action

theorem ofJson?_toJson_eq_self_iff {definition : Definition} :
    ofJson? definition.toJson = some definition ↔ definition.HasNormalTypes := by
  have hsame : definition.actions = definition.actions.map id := (List.map_id _).symm
  rw [ofJson?_toJson, Option.some.injEq]
  constructor
  · intro h action haction
    have hactions := (congrArg Definition.actions h).trans hsame
    exact congrArg Action.type (List.map_inj_left.mp hactions action haction)
  · intro h
    have hactions : definition.actions.map (fun action => Action.ofParts action.type action.data) =
        definition.actions := by
      refine (List.map_inj_left.mpr fun action haction => ?_).trans hsame.symm
      rw [Action.ofParts, h action haction]
      rfl
    rw [hactions]

/-! ## Reading and building -/

theorem Gives.normalizeName_type {json : Json} {action : Action} (h : Gives json action) :
    normalizeName action.type = action.type := by
  cases h with
  | raw raw => exact (normal_ofRaw raw).normalizeName_type
  | object htype hdata => exact normalizeName_normalizeName _
  | pair type data => exact normalizeName_normalizeName _

theorem Describes.hasNormalTypes {json : Json} {definition : Definition}
    (h : Describes json definition) :
    definition.HasNormalTypes := by
  cases h with
  | text raw =>
      intro action haction
      obtain rfl := List.mem_singleton.mp haction
      exact (Gives.raw raw).normalizeName_type
  | list hitems =>
      induction hitems with
      | nil => exact fun _ haction => absurd haction List.not_mem_nil
      | cons hitem _ ih => exact List.forall_mem_cons.mpr ⟨hitem.normalizeName_type, ih⟩

/-- The definition with actions of some types and data at its end, added one by one. -/
def addAll (definition : Definition) (parts : List (String × String)) : Definition :=
  parts.foldl (fun definition part => definition.add part.1 part.2) definition

theorem actions_addAll (definition : Definition) (parts : List (String × String)) :
    (definition.addAll parts).actions =
      definition.actions ++ parts.map fun part => .ofParts part.1 part.2 := by
  induction parts generalizing definition with
  | nil => exact (List.append_nil _).symm
  | cons part parts ih =>
      have hstep : definition.addAll (part :: parts) = (definition.add part.1 part.2).addAll parts := rfl
      rw [hstep, ih, List.map_cons, add, push, List.append_assoc, List.singleton_append]

theorem HasNormalTypes.addAll {definition : Definition} (h : definition.HasNormalTypes)
    (parts : List (String × String)) : (definition.addAll parts).HasNormalTypes := by
  intro action haction
  rw [actions_addAll, List.mem_append, List.mem_map] at haction
  rcases haction with hold | ⟨part, -, rfl⟩
  · exact h action hold
  · exact normalizeName_normalizeName _

/-- The documents that are definitions, with one action for every item of a list.  A definition that was
read comes back from its document, and so does one that was built from any types and data, whose actions
are those of its parts. -/
theorem reads_normal_form :
    (∀ (json : Json) (definition : Definition),
      ofJson? json = some definition ↔ Describes json definition) ∧
    (∀ (json : Json) (definition : Definition),
      ofJson? json = some definition → ofJson? definition.toJson = some definition) ∧
    ∀ parts : List (String × String),
      (empty.addAll parts).actions = parts.map (fun part => .ofParts part.1 part.2) ∧
        ofJson? (empty.addAll parts).toJson = some (empty.addAll parts) := by
  refine ⟨fun _ _ => ofJson?_eq_some_iff, fun _ _ hread => ?_, fun parts => ⟨?_, ?_⟩⟩
  · exact ofJson?_toJson_eq_self_iff.mpr (ofJson?_eq_some_iff.mp hread).hasNormalTypes
  · exact actions_addAll empty parts
  · have hempty : empty.HasNormalTypes := fun _ haction => absurd haction List.not_mem_nil
    exact ofJson?_toJson_eq_self_iff.mpr (hempty.addAll parts)

/-- A list of a block, an object with a field that is not read, a pair and a text that stands in it
twice. -/
theorem reads_normal_form_mixed :
    let items : Json := .arr [.str " Sound \x7b - \"a:1\" \x7d ",
      .obj [("note", .null), ("type", .str " ΜΕΝΟΣ "), ("data", .str " x ")],
      .arr [.str "TITLE", .str "Hi: there"], .str "Hello", .str "Hello"]
    let definition : Definition := ⟨[⟨"sound", "Sound \x7b - \"a:1\" \x7d"⟩, ⟨"μενος", " x "⟩,
      ⟨"title", "Hi: there"⟩, ⟨"message", "Hello"⟩, ⟨"message", "Hello"⟩]⟩
    ofJson? items = some definition ∧ ofJson? definition.toJson = some definition := by
  intro items definition
  have hread : ofJson? items = some definition := by decide +kernel
  exact ⟨hread, reads_normal_form.2.1 items definition hread⟩

end MenuActions.Definition
