import MenuActions.Proofs.Action.TypedText
import MenuActions.Proofs.Executor.Validity
import MenuActions.Proofs.Registry.Builtin

/-!
# Random blocks among the entries of a random choice

A random choice passes over the entries that are random blocks as they are written.  A weight is cut
off afterwards, and what is left of the entry may be such a block: `IsWeightedBlock` says of which
entries this is so, and `entries_free_iff` that there are no others.

An entry with a number behind its last colon does not end with a brace, so it is no block as it is
written; and a random block is an action that the builtin registry finds valid as soon as one of its
values can be drawn.  An entry whose number is not taken for a weight stays as it is written.
-/

namespace MenuActions

open Text Grammar

namespace Executor

/-- A random block is valid when one of its values can be drawn, in whatever case its name is
written. -/
theorem isValid_of_isRandom (config : Config) {block : List Char} (htrim : trim block = block)
    (hrandom : Block.isRandom block = true) :
    isValid config (Registry.builtin config) (String.ofList block) =
      Handler.random.isValid (String.ofList block) := by
  obtain ⟨name, hname, hlower⟩ := Block.isRandom_iff.mp hrandom
  have hform := Block.typeName?_eq_some_iff.mp hname
  have hread : Action.read config.defaultType (String.ofList block) =
      ⟨"random", String.ofList block⟩ := by
    rw [Action.read_of_typeName? _ htrim hname, Action.ofParts,
      Action.normalizeName_ofList hform.1, hlower, String.ofList_toList]
  exact isValid_of_lookup hread (Registry.lookup_builtin_random config)

/-- An entry that is a random block once its weight is cut off: the block has exactly one colon and a
value that can be drawn, and the weight is positive and finite. -/
def IsWeightedBlock (entry : List Char) : Prop :=
  ∃ block weight, Weighted.candidate? (trim entry) = some (block, weight) ∧
    Block.isRandom block = true ∧ Handler.random.isValid (String.ofList block) = true ∧
    weight > 0.0 ∧ weight.isFinite = true

/-- What stands in front of a weight is trimmed, and the entry is no block as it is written. -/
theorem of_candidate? {entry block : List Char} {weight : Float}
    (h : Weighted.candidate? (trim entry) = some (block, weight)) :
    trim block = block ∧ Block.isRandom entry = false := by
  have hcarries := (Weighted.candidate?_eq_some_iff (trim_trim entry)).mp h
  refine ⟨hcarries.trimmed, ?_⟩
  rw [Bool.eq_false_iff]
  intro hrandom
  obtain ⟨name, hname, -⟩ := Block.isRandom_iff.mp hrandom
  exact absurd (hcarries.isNumeralChar_of_getLast? (Block.getLast?_of_typeName? hname)) (by decide)

/-- An entry that is no random block as it is written is read as one just when it is a weighted
block. -/
theorem isRandom_read?_iff (config : Config) {entry : List Char}
    (hentry : Block.isRandom entry = false) :
    (∃ read, Weighted.read? (isValid config (Registry.builtin config)) entry = some read ∧
      Block.isRandom read.action.toList = true) ↔ IsWeightedBlock entry := by
  constructor
  · rintro ⟨read, hread, hrandom⟩
    cases Weighted.read?_eq_some_iff.mp hread with
    | whole _ _ =>
        -- The entry as it is written is no random block, so the reader has cut off a weight.
        rw [String.toList_ofList, Block.isRandom_trim, hentry] at hrandom
        exact absurd hrandom (by decide)
    | @weighted block weight hcarries hvalid hpositive hfinite =>
        rw [String.toList_ofList] at hrandom
        rw [isValid_of_isRandom config hcarries.trimmed hrandom] at hvalid
        exact ⟨block, weight, (Weighted.candidate?_eq_some_iff (trim_trim entry)).mpr hcarries,
          hrandom, hvalid, hpositive, hfinite⟩
  · rintro ⟨block, weight, hcandidate, hrandom, hvalid, hpositive, hfinite⟩
    have hcarries := (Weighted.candidate?_eq_some_iff (trim_trim entry)).mp hcandidate
    rw [← isValid_of_isRandom config hcarries.trimmed hrandom] at hvalid
    exact ⟨⟨String.ofList block, weight⟩,
      Weighted.read?_eq_some_iff.mpr (.weighted hcarries hvalid hpositive hfinite),
      by rw [String.toList_ofList, hrandom]⟩

/-- A random choice hands no random block to the selection just when none of its entries is a
weighted block. -/
theorem entries_free_iff (config : Config) (data : String) :
    (∀ candidates, entries config (Registry.builtin config) data = .ok candidates →
      ∀ entry ∈ candidates, Block.isRandom entry.action.toList = false) ↔
    ∀ values, Handler.readTexts "random" data = .ok values →
      ∀ value ∈ values, ¬IsWeightedBlock value.toList := by
  unfold entries
  cases Handler.readTexts "random" data with
  | error error => simp
  | ok values =>
      simp only [Except.ok.injEq, forall_eq', List.mem_filterMap, List.mem_filter]
      constructor
      · rintro hfree value hvalue hblock
        have hwritten : Block.isRandom value.toList = false := by
          obtain ⟨block, weight, hcandidate, -⟩ := hblock
          exact (of_candidate? hcandidate).2
        obtain ⟨read, hread, hrandom⟩ := (isRandom_read?_iff config hwritten).mpr hblock
        have hnone := hfree read ⟨value, ⟨hvalue, by rw [hwritten]; rfl⟩, hread⟩
        rw [hrandom] at hnone
        exact absurd hnone (by decide)
      · rintro hnone read ⟨value, ⟨hvalue, hwritten⟩, hread⟩
        rw [Bool.not_eq_true'] at hwritten
        rw [Bool.eq_false_iff]
        intro hrandom
        exact hnone value hvalue ((isRandom_read?_iff config hwritten).mp ⟨read, hread, hrandom⟩)

/-- A block behind which a weight stands is handed on. -/
theorem entries_weighted_block :
    ∃ candidates, entries Config.standard (Registry.builtin Config.standard)
        "random \x7b - \"random \x7b - \\\"message:a\\\" \x7d:5\" \x7d" = .ok candidates ∧
      ∃ entry ∈ candidates, Block.isRandom entry.action.toList = true := by
  have hany : ((entries Config.standard (Registry.builtin Config.standard)
      "random \x7b - \"random \x7b - \\\"message:a\\\" \x7d:5\" \x7d").toOption.any fun candidates =>
        candidates.any fun entry => Block.isRandom entry.action.toList) = true := by
    decide +kernel
  cases hread : entries Config.standard (Registry.builtin Config.standard)
      "random \x7b - \"random \x7b - \\\"message:a\\\" \x7d:5\" \x7d" with
  | error error =>
      rw [hread] at hany
      exact absurd hany (by simp [Except.toOption])
  | ok candidates =>
      rw [hread] at hany
      exact ⟨candidates, rfl, List.any_eq_true.mp hany⟩

end Executor

end MenuActions
