import MenuActions.Proofs.Action.TypedText
import MenuActions.Proofs.Executor.Validity
import MenuActions.Proofs.Registry.Builtin

/-!
# Weights and arguments

A number at the end of an entry of a random choice is a weight only if a valid action stands in front of
it.  `weights_spare_arguments` says what this comes to with the handlers that an engine comes with: what is
cut off an entry is always a weight, a valid action with a weight behind it is read as such, and the
numbers that the operations on balances, items, sounds and titles take at their end stay where they are.

Items, sounds and titles have so many colons that nothing can be cut off them.  An amount of money follows
two colons only, and there it matters that the operation without its amount is not valid.
-/

namespace MenuActions

open Text Grammar

namespace Executor

/-- The words for the operations on a balance that take an amount. -/
def amountWords : List String :=
  ["add", "give", "deposit", "remove", "take", "withdraw", "set"]

/-- Entries that end in an argument of their action, whatever texts stand for the arguments. -/
inductive EndsInArgument : List Char → Prop
  | economy {word : String} (hword : word ∈ amountWords) (amount : List Char) :
      EndsInArgument (joinWith [':'] ["economy".toList, word.toList, amount])
  | inventory (item amount : List Char) :
      EndsInArgument (joinWith [':'] ["inventory".toList, "give".toList, item, amount])
  | sound (name volume pitch : List Char) :
      EndsInArgument (joinWith [':'] ["sound".toList, name, volume, pitch])
  | title (title subtitle fadeIn stay fadeOut : List Char) :
      EndsInArgument (joinWith [':'] ["title".toList, title, subtitle, fadeIn, stay, fadeOut])

/-- An operation that takes an amount is not valid without one. -/
theorem isValid_amountWord (config : Config) {word : String} (hword : word ∈ amountWords) :
    isValid config (Registry.builtin config)
      (String.ofList ("economy".toList ++ ':' :: word.toList)) = false := by
  have hrefused : ∀ word ∈ amountWords,
      (Handler.value .economy 0).isValid (String.ofList (trim word.toList)) = false := by
    decide +kernel
  have hread : Action.read config.defaultType (String.ofList ("economy".toList ++ ':' :: word.toList)) =
      ⟨"economy", String.ofList (trim word.toList)⟩ :=
    Action.read_normal word.toList config.defaultType (by decide)
      (normalizeName_typeName .economy)
  have hlookup : (Registry.builtin config).lookup "economy" =
      some (.value .economy (config.pacing .economy)) :=
    Registry.lookup_builtin_value config .economy
  -- The pause between two values makes no difference to whether they are valid.
  have hpacing : (Handler.value .economy (config.pacing .economy)).isValid =
      (Handler.value .economy 0).isValid := rfl
  rw [isValid_of_lookup hread hlookup, hpacing]
  exact hrefused word hword

/-- The amount of an operation on a balance is never taken for a weight. -/
theorem read?_economy (config : Config) {word : String} (hword : word ∈ amountWords)
    (amount : List Char) :
    let entry := joinWith [':'] ["economy".toList, word.toList, amount]
    Weighted.read? (isValid config (Registry.builtin config)) entry =
      some ⟨String.ofList (trim entry), 1.0⟩ := by
  intro entry
  have hentry : trim entry = ("economy".toList ++ ':' :: word.toList) ++ ':' :: trimEnd amount := by
    have htext : entry = "economy".toList ++ ':' :: (word.toList ++ ':' :: amount) := by
      simp [entry, joinWith]
    rw [htext, Action.trim_colon _ (by decide), trimEnd_append_cons (by decide)]
    simp
  have hplain : ∀ word ∈ amountWords,
      ("economy".toList ++ ':' :: word.toList).count ':' = 1 ∧
        trim ("economy".toList ++ ':' :: word.toList) = "economy".toList ++ ':' :: word.toList := by
    decide
  obtain ⟨hcount, htrim⟩ := hplain word hword
  refine Weighted.read?_whole (fun hnil => ?_) fun action weight hcarries => ?_
  · rw [hentry] at hnil
    exact absurd hnil (by simp)
  · -- Two colons are written already, so the amount has none and the action stops in front of it.
    have htwo := hcarries.count_eq
    rw [hentry, List.count_append, List.count_cons_self, hcount] at htwo
    have hamount : ':' ∉ trimEnd amount := List.count_eq_zero.mp (by omega)
    rw [hcarries.action_eq hentry hamount, htrim]
    exact isValid_amountWord config hword

/-- An entry that ends in an argument is an action of weight one. -/
theorem read?_of_endsInArgument (config : Config) {entry : List Char} (h : EndsInArgument entry) :
    Weighted.read? (isValid config (Registry.builtin config)) entry =
      some ⟨String.ofList (trim entry), 1.0⟩ := by
  cases h with
  | economy hword amount => exact read?_economy config hword amount
  | inventory item amount => exact Weighted.read?_of_pieces (by simp)
  | sound name volume pitch => exact Weighted.read?_of_pieces (by simp)
  | title title subtitle fadeIn stay fadeOut => exact Weighted.read?_of_pieces (by simp)

/-- A valid action with a numeral for a weight behind it is read as that action with that weight. -/
theorem read?_of_weight {accepts : String → Bool} {action numeral : List Char} {weight : Float}
    (hvalid : accepts (String.ofList action) = true) (htrim : trim action = action)
    (hcolon : action.count ':' = 1) (hnumeral : Decimal.float? numeral = some weight)
    (hpositive : weight > 0.0) (hfinite : weight.isFinite = true) :
    Weighted.read? accepts (action ++ ':' :: numeral) = some ⟨String.ofList action, weight⟩ := by
  have hcarries : Weighted.Carries (action ++ ':' :: numeral) action weight :=
    ⟨⟨[], [], numeral, rfl, List.forall_mem_nil _, List.forall_mem_nil _, hnumeral⟩, htrim, hcolon⟩
  have hwhole : trim (action ++ ':' :: numeral) = action ++ ':' :: numeral := by
    refine trim_eq_self_of_ends (fun c hc => ?_) (fun c hc => ?_)
    · cases action with
      | nil => exact absurd hcolon (by decide)
      | cons first rest => exact head_of_trim_eq_self htrim c hc
    · exact Decimal.isBlank_of_isNumeralChar (hcarries.isNumeralChar_of_getLast? hc)
  rw [← hwhole] at hcarries
  exact Weighted.read?_eq_some_iff.mpr (.weighted hcarries hvalid hpositive hfinite)

/-- Weights never take an argument away.  With the handlers that an engine comes with, an entry is read as
an action that is not empty, with a positive and finite weight; and when that is not the trimmed entry as it
stands, the action passes validation, and the entry is the action with a colon and the text of the weight
behind it, up to blanks around that colon.  A trimmed valid action with one colon and a numeral for a
positive finite weight behind it are read as this action and this weight.  Entries that end in an amount, a
pitch or a time keep it and weigh one. -/
theorem weights_spare_arguments (config : Config) :
    let accepts := isValid config (Registry.builtin config)
    (∀ entry read, Weighted.read? accepts entry = some read →
      read.action ≠ "" ∧ read.weight > 0.0 ∧ read.weight.isFinite = true ∧
        (read.action ≠ String.ofList (trim entry) →
          validate config (Registry.builtin config) read.action = .ok () ∧
            Weighted.Carries (trim entry) read.action.toList read.weight)) ∧
    (∀ (action numeral : List Char) (weight : Float), accepts (String.ofList action) = true →
      trim action = action → action.count ':' = 1 → Decimal.float? numeral = some weight →
      weight > 0.0 → weight.isFinite = true →
        Weighted.read? accepts (action ++ ':' :: numeral) = some ⟨String.ofList action, weight⟩) ∧
    ∀ entry, EndsInArgument entry →
      Weighted.read? accepts entry = some ⟨String.ofList (trim entry), 1.0⟩ := by
  intro accepts
  refine ⟨fun entry read hread => ?_, fun _ _ _ => read?_of_weight, fun _ => read?_of_endsInArgument config⟩
  cases Weighted.read?_eq_some_iff.mp hread with
  | whole hne _ =>
      have hone : (1.0 : Float) > 0.0 ∧ (1.0 : Float).isFinite = true := by decide
      refine ⟨fun hempty => hne ?_, hone.1, hone.2, fun hother => absurd rfl hother⟩
      simpa using congrArg String.toList hempty
  | @weighted action weight hcarries hvalid hpositive hfinite =>
      refine ⟨fun hempty => ?_, hpositive, hfinite, fun _ => ⟨validate_of_isValid hvalid, ?_⟩⟩
      · have hnil : action = [] := by simpa using congrArg String.toList hempty
        exact absurd hcarries.colon (by rw [hnil]; decide)
      · rw [String.toList_ofList]
        exact hcarries

/-- A weight with blanks around its colon, a weight in scientific notation, and an amount of money. -/
theorem weights_spare_arguments_message :
    let accepts := isValid Config.standard (Registry.builtin Config.standard)
    let entry := " message:Lucky! : 3 ".toList
    (Weighted.read? accepts entry = some ⟨"message:Lucky!", 3.0⟩ ∧
      validate Config.standard (Registry.builtin Config.standard) "message:Lucky!" = .ok ()) ∧
    (accepts "message:Lucky!" = true ∧
      Weighted.read? accepts "message:Lucky!:25e-1".toList = some ⟨"message:Lucky!", 2.5⟩) ∧
    Weighted.read? accepts "economy:add:50".toList = some ⟨"economy:add:50", 1.0⟩ := by
  intro accepts entry
  obtain ⟨hread, hweight, hargument⟩ := weights_spare_arguments Config.standard
  have hvalid : accepts "message:Lucky!" = true := by decide +kernel
  have hcarries : Weighted.Carries (trim entry) "message:Lucky!".toList 3.0 :=
    ⟨⟨[' '], [' '], ['3'], by decide, isBlank_of_mem_singleton (by decide),
      isBlank_of_mem_singleton (by decide), by decide +kernel⟩, by decide, by decide⟩
  have hentry : Weighted.read? accepts entry = some ⟨"message:Lucky!", 3.0⟩ :=
    Weighted.read?_eq_some_iff.mpr (.weighted hcarries hvalid (by decide) (by decide))
  have hlucky := hweight "message:Lucky!".toList "25e-1".toList 2.5 hvalid (by decide) (by decide)
    (by decide +kernel) (by decide) (by decide)
  have hamount := hargument _ (.economy (show "add" ∈ amountWords by decide) "50".toList)
  exact ⟨⟨hentry, ((hread entry _ hentry).2.2.2 (by decide)).1⟩, ⟨hvalid, hlucky⟩, hamount⟩

end Executor

end MenuActions
