import MenuActions.Catalog
import MenuActions.Proofs.Json.Table
import MenuActions.Proofs.Template.Filling
import MenuActions.Sequence

/-!
# Results that can be rendered in full

The message of a result is a key of the catalog, and the text of a key has tokens for replacements.  A
result is renderable when its key is one of the engine's and no token of the English text is without a
replacement (`ActionResult.Renderable`); its text then comes out with every token filled, in whatever
locale it is asked for (`Renderable.rendersInFull`).

More replacements never hurt (`Renderable.put`), so it is enough to look at the results as they are
first made: those of errors and aggregates here, those of the actions with their handlers.
-/

namespace MenuActions

/-! ## The texts of the catalog -/

/-- The tokens of the English text of a key. -/
def MessageKey.tokens (key : String) : List String :=
  (english.filter fun entry => entry.1 == key).flatMap fun entry =>
    Template.tokenNames Template.isReplacementChar entry.2.toList

/-- The keys of the engine, each with the names of the replacements that its English text asks for. -/
def MessageKey.asked : List (String × List String) :=
  [ (unknownType, ["type"]), (validation, ["error"]), (execution, ["error"]),
    (interrupted, ["completed", "total"]), (depth, ["depth", "limit"]), (poolShutdown, ["pool"]),
    (aborted, ["error"]), (definitionEmpty, []), (compositeSuccess, ["total_count"]),
    (compositePartial, ["success_count", "total_count"]), (compositeFailure, ["total_count"]),
    (messageSent, []), (broadcastSent, []), (actionbarSent, []), (titleSent, []),
    (soundPlayed, ["sound"]), (commandExecuted, ["command"]), (consoleExecuted, ["command"]),
    (economyAdded, ["amount", "player"]), (economyRemoved, ["amount", "player"]),
    (economySet, ["player", "amount"]), (economyBalance, ["player", "balance"]),
    (gamemodeChanged, ["mode"]), (inventoryGiven, ["amount", "item"]), (inventoryCleared, []),
    (conditionalNoBranch, ["outcome"]), (randomEmpty, []), (delayScheduled, ["delay_ms"]),
    (delayCompleted, ["delay_ms"]) ]

/-- Every key stands there once, with the tokens of its text in their order. -/
theorem MessageKey.asked_eq : asked = all.map fun key => (key, tokens key) := by
  decide +kernel

theorem MessageKey.mem_asked_iff {key : String} {names : List String} :
    (key, names) ∈ asked ↔ key ∈ all ∧ names = tokens key := by
  rw [asked_eq, List.mem_map]
  constructor
  · rintro ⟨found, hfound, hrow⟩
    obtain ⟨rfl, rfl⟩ := Prod.mk.inj hrow
    exact ⟨hfound, rfl⟩
  · rintro ⟨hkey, rfl⟩
    exact ⟨key, hkey, rfl⟩

namespace Catalog

variable {key template : String} {locale : Option String}

theorem entries_builtin : builtin.entries =
    MessageKey.english.reverse.map fun entry => ⟨fallbackLocale, entry.1, entry.2⟩ := by
  decide +kernel

/-- The builtin catalog has the English texts and no others. -/
theorem mem_english_of_text? {locale : String} (h : builtin.text? locale key = some template) :
    (key, template) ∈ MessageKey.english := by
  rw [text?, entries_builtin, Option.map_eq_some_iff] at h
  obtain ⟨entry, hfound, rfl⟩ := h
  obtain ⟨pair, hpair, rfl⟩ := List.mem_map.mp (List.mem_of_find?_eq_some hfound)
  have hmatch := List.find?_some hfound
  simp only [Bool.and_eq_true, beq_iff_eq] at hmatch
  obtain ⟨-, rfl⟩ := hmatch
  exact List.mem_reverse.mp hpair

theorem isSome_text? (hkey : key ∈ MessageKey.all) :
    (builtin.text? fallbackLocale key).isSome = true := by
  rw [← MessageKey.map_fst_english] at hkey
  obtain ⟨pair, hpair, rfl⟩ := List.mem_map.mp hkey
  rw [text?, Option.isSome_map, List.find?_isSome, entries_builtin]
  exact ⟨⟨fallbackLocale, pair.1, pair.2⟩, List.mem_map_of_mem (List.mem_reverse.mpr hpair), by simp⟩

/-- English is tried in the end, whatever the locale. -/
theorem fallbackLocale_mem_candidates (locale : Option String) :
    fallbackLocale ∈ candidates locale := by
  cases locale with
  | none => exact List.mem_singleton_self _
  | some locale =>
      rw [candidates]
      split
      · simp
      · simp

/-- A message of the engine is rendered by filling its English text, in every locale. -/
theorem exists_render_builtin (hkey : key ∈ MessageKey.all) (replacements : Table Json)
    (locale : Option String) :
    ∃ template, (key, template) ∈ MessageKey.english ∧
      builtin.render key replacements locale =
        String.ofList (Template.fill Template.isReplacementChar
          (fun name => (replacements.get? name).map Json.toText) template.toList) := by
  have hfound : ((candidates locale).findSome? fun locale => builtin.text? locale key).isSome = true :=
    List.findSome?_isSome_iff.mpr ⟨_, fallbackLocale_mem_candidates locale, isSome_text? hkey⟩
  obtain ⟨template, htemplate⟩ := Option.isSome_iff_exists.mp hfound
  obtain ⟨candidate, -, htext⟩ := List.exists_of_findSome?_eq_some htemplate
  refine ⟨template, mem_english_of_text? htext, ?_⟩
  rw [render, htemplate]

end Catalog

namespace ActionResult

/-! ## Renderable results -/

/-- The message is one of the engine's, and every token of its English text has a replacement. -/
structure Renderable (result : ActionResult) : Prop where
  message : result.message ∈ MessageKey.all
  tokens : ∀ token ∈ MessageKey.tokens result.message, token ∈ result.replacements.names

/-- The text that stands for a token, if it has a replacement. -/
def text (result : ActionResult) (token : String) : String :=
  ((result.replacements.get? token).map Json.toText).getD ""

/-- A result is rendered in full: it has a message of the engine, it counts as a success exactly when
its status is no failure, every token of the English text has a replacement, and in every locale the
message is that text with the replacement put in for each token. -/
structure RendersInFull (result : ActionResult) : Prop where
  message : result.message ∈ MessageKey.all
  succeeded : result.succeeded = true ↔ result.status ≠ .failure
  tokens : ∀ template, (result.message, template) ∈ MessageKey.english →
    ∀ token ∈ Template.tokenNames Template.isReplacementChar template.toList,
      (result.replacements.get? token).isSome = true
  rendered : ∀ locale, ∃ template, (result.message, template) ∈ MessageKey.english ∧
    Catalog.builtin.renderResult result locale =
      String.ofList (Template.fill Template.isReplacementChar (fun token => some (result.text token))
        template.toList)

variable {result : ActionResult}

theorem Renderable.isSome_get? (h : result.Renderable) {template token : String}
    (htemplate : (result.message, template) ∈ MessageKey.english)
    (htoken : token ∈ Template.tokenNames Template.isReplacementChar template.toList) :
    (result.replacements.get? token).isSome = true := by
  have hentry : (result.message, template) ∈
      MessageKey.english.filter fun entry => entry.1 == result.message :=
    List.mem_filter.mpr ⟨htemplate, beq_self_eq_true _⟩
  exact Table.mem_names_iff.mp (h.tokens token (List.mem_flatMap.mpr ⟨_, hentry, htoken⟩))

theorem Renderable.rendersInFull (h : result.Renderable) : result.RendersInFull where
  message := h.message
  succeeded := result.succeeded_iff
  tokens _ htemplate _ := h.isSome_get? htemplate
  rendered locale := by
    obtain ⟨template, htemplate, hrender⟩ :=
      Catalog.exists_render_builtin h.message result.replacements locale
    refine ⟨template, htemplate, ?_⟩
    rw [Catalog.renderResult, hrender]
    refine congrArg String.ofList (Template.fill_congr fun token htoken => ?_)
    obtain ⟨value, hvalue⟩ := Option.isSome_iff_exists.mp (h.isSome_get? htemplate htoken)
    rw [text, hvalue]
    rfl

/-- A result with a message of the engine is renderable when it has the replacements that its text asks
for. -/
theorem renderable_of (key : String) (names : List String) (hasked : (key, names) ∈ MessageKey.asked)
    (hmessage : result.message = key) (hnames : ∀ name ∈ names, name ∈ result.replacements.names) :
    result.Renderable := by
  subst hmessage
  obtain ⟨hkey, rfl⟩ := MessageKey.mem_asked_iff.mp hasked
  exact ⟨hkey, hnames⟩

@[simp] theorem mem_names_put {other name : String} {value : Json} :
    other ∈ (result.put name value).replacements.names ↔
      other = name ∨ other ∈ result.replacements.names :=
  Table.mem_names_put

@[simp] theorem mem_names_putText {other name value : String} :
    other ∈ (result.putText name value).replacements.names ↔
      other = name ∨ other ∈ result.replacements.names :=
  Table.mem_names_put

@[simp] theorem mem_names_putCount {other name : String} {value : Nat} :
    other ∈ (result.putCount name value).replacements.names ↔
      other = name ∨ other ∈ result.replacements.names :=
  Table.mem_names_put

/-- One more replacement, or another one in the place of an earlier one, leaves no token behind. -/
theorem Renderable.put (h : result.Renderable) (name : String) (value : Json) :
    (result.put name value).Renderable :=
  ⟨h.message, fun token htoken => mem_names_put.mpr (Or.inr (h.tokens token htoken))⟩

theorem Renderable.withCause (h : result.Renderable) (error : ActionError) :
    (result.withCause error).Renderable :=
  ⟨h.message, h.tokens⟩

/-! ## Errors and aggregates -/

theorem renderable_ofError (error : ActionError) : (ofError error).Renderable := by
  cases error with
  | validation type reason =>
      exact renderable_of MessageKey.validation ["error"] (by simp [MessageKey.asked]) rfl
        (by simp [ofError, withCause])
  | execution type message =>
      exact renderable_of MessageKey.execution ["error"] (by simp [MessageKey.asked]) rfl
        (by simp [ofError, withCause])
  | interruptedPacing completed total =>
      exact renderable_of MessageKey.interrupted ["completed", "total"] (by simp [MessageKey.asked]) rfl
        (by simp [ofError, withCause])
  | unknownType type =>
      exact renderable_of MessageKey.unknownType ["type"] (by simp [MessageKey.asked]) rfl
        (by simp [ofError, withCause])
  | depthExceeded depth limit =>
      exact renderable_of MessageKey.depth ["depth", "limit"] (by simp [MessageKey.asked]) rfl
        (by simp [ofError, withCause])
  | poolShutdown pool =>
      exact renderable_of MessageKey.poolShutdown ["pool"] (by simp [MessageKey.asked]) rfl
        (by simp [ofError, withCause])
  | panicked type message =>
      exact renderable_of MessageKey.aborted ["error"] (by simp [MessageKey.asked]) rfl
        (by simp [ofError, withCause])

/-- An aggregate has its counts, whatever its parts are. -/
theorem renderable_aggregate (type : String) (results : List ActionResult) (total : Nat) :
    (aggregate type results total).Renderable := by
  cases hstatus : Status.ofCounts (results.countP ActionResult.succeeded) total with
  | success =>
      exact renderable_of MessageKey.compositeSuccess ["total_count"] (by simp [MessageKey.asked])
        (by rw [aggregate, hstatus]; rfl) (by simp [aggregate])
  | partialSuccess =>
      exact renderable_of MessageKey.compositePartial ["success_count", "total_count"]
        (by simp [MessageKey.asked]) (by rw [aggregate, hstatus]; rfl) (by simp [aggregate])
  | failure =>
      exact renderable_of MessageKey.compositeFailure ["total_count"] (by simp [MessageKey.asked])
        (by rw [aggregate, hstatus]; rfl) (by simp [aggregate])

/-- So has one that was cut short. -/
theorem renderable_cutShort (type : String) (results : List ActionResult) (total : Nat) :
    (Sequence.cutShort type results total).Renderable :=
  ((renderable_aggregate type results total).put "interrupted" (.bool true)).withCause _

end ActionResult

/-- An outcome is renderable as a result: an error always is. -/
def Outcome.Renderable (outcome : Outcome) : Prop :=
  outcome.result.Renderable

theorem Outcome.renderable_error (error : ActionError) : Renderable (.error error) :=
  ActionResult.renderable_ofError error

end MenuActions
