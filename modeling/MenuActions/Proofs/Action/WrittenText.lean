import MenuActions.Proofs.Action.TypedText
import MenuActions.Proofs.Text.LowerCase

/-!
# Actions written as raw text

An action is written as its type, a colon and its data, also when the data is a block that repeats the
type.  Reading such a text takes the block path for no data: what stands in front of the first brace
holds the colon.  So it is cut at the first colon, which is the one that was written.

`ofRaw_toRaw` says which actions come back: those that are `Normal`, as every action is that was read
from raw text, whatever the text.
-/

namespace MenuActions.Action

open Text Grammar.Block

/-- An action in the form in which raw text is read: its type is a type name in lower case, and there are
no blanks around its data. -/
structure Normal (action : Action) : Prop where
  name : isTypeName action.type.toList = true
  lowered : lower action.type.toList = action.type.toList
  trimmed : trim action.data.toList = action.data.toList

/-! ## Names in lower case -/

/-- Normalizing a name a second time changes nothing. -/
@[simp] theorem normalizeName_normalizeName (name : String) :
    normalizeName (normalizeName name) = normalizeName name := by
  simp only [normalizeName, String.toList_ofList, trim_lower_trim, lower_lower]

/-- The type of a normal action is a normalized name. -/
theorem Normal.normalizeName_type {action : Action} (h : action.Normal) :
    normalizeName action.type = action.type := by
  rw [normalizeName, (isTypeName_iff.mp h.name).1.trim_eq, h.lowered, String.ofList_toList]

/-- The letters of names by their code points. -/
theorem isAlpha_iff {c : Char} :
    c.isAlpha = true ↔ (65 ≤ c.toNat ∧ c.toNat ≤ 90) ∨ (97 ≤ c.toNat ∧ c.toNat ≤ 122) := by
  have hle : ∀ a b : UInt32, a ≤ b ↔ a.toNat ≤ b.toNat := fun a b => UInt32.le_iff_toNat_le
  have hletter : c.isAlpha = (decide (c.val ≥ 'A'.val ∧ c.val ≤ 'Z'.val) ||
      (c.val ≥ 'a'.val && c.val ≤ 'z'.val)) := rfl
  simp only [hletter, Bool.or_eq_true, Bool.and_eq_true, decide_eq_true_eq, ge_iff_le, hle]
  exact Iff.rfl

theorem isAlpha_toLower {c : Char} (h : c.isAlpha = true) : c.toLower.isAlpha = true := by
  have hc := isAlpha_iff.mp h
  rw [isAlpha_iff]
  obtain ⟨hfirst, hlast, hcode⟩ | ⟨-, hsame⟩ := toLower_cases c
  · omega
  · rw [hsame]
    exact hc

theorem isNameChar_toLower {c : Char} (h : isNameChar c = true) : isNameChar c.toLower = true := by
  have hc := isNameChar_iff.mp h
  rw [isNameChar_iff]
  obtain ⟨hfirst, hlast, hcode⟩ | ⟨-, hsame⟩ := toLower_cases c
  · omega
  · rw [hsame]
    exact hc

theorem isTypeName_lower {name : List Char} (h : isTypeName name = true) :
    isTypeName (lower name) = true := by
  have hascii : ∀ c ∈ name, c.toNat < 0x80 := by
    intro c hc
    have hrange := isNameChar_iff.mp ((isTypeName_iff.mp h).1.1 c hc)
    omega
  rw [lower_of_ascii hascii]
  cases name with
  | nil => exact h
  | cons first rest =>
      obtain ⟨hfirst, hchars⟩ : first.isAlpha = true ∧ (first :: rest).all isNameChar = true := by
        simpa only [isTypeName, Bool.and_eq_true] using h
      have hlowered : ((first :: rest).map Char.toLower).all isNameChar = true := by
        rw [List.all_map, List.all_eq_true]
        exact fun c hc => isNameChar_toLower (List.all_eq_true.mp hchars c hc)
      simp only [List.map_cons] at hlowered ⊢
      simp only [isTypeName, Bool.and_eq_true]
      exact ⟨isAlpha_toLower hfirst, hlowered⟩

/-! ## Reading gives normal actions -/

/-- An action of a type name and trimmed data is normal. -/
theorem normal_ofParts {type data : List Char} (htype : isTypeName type = true)
    (hdata : trim data = data) : (ofParts (String.ofList type) (String.ofList data)).Normal := by
  have hname : (normalizeName (String.ofList type)).toList = lower type := by
    rw [normalizeName, String.toList_ofList, String.toList_ofList, (isTypeName_iff.mp htype).1.trim_eq]
  refine ⟨?_, ?_, ?_⟩
  · show isTypeName (normalizeName (String.ofList type)).toList = true
    rw [hname]
    exact isTypeName_lower htype
  · show lower (normalizeName (String.ofList type)).toList = (normalizeName (String.ofList type)).toList
    rw [hname, lower_lower]
  · show trim (String.ofList data).toList = (String.ofList data).toList
    rw [String.toList_ofList, hdata]

theorem normal_ofColon {text : List Char} (htext : trim text = text) :
    (ofColon defaultType text).Normal := by
  have hdefault : (ofParts defaultType (String.ofList text)).Normal :=
    normal_ofParts (show isTypeName defaultType.toList = true by decide) htext
  unfold ofColon
  split
  · split
    · rename_i htype
      exact normal_ofParts htype (trim_trim _)
    · exact hdefault
  · exact hdefault

/-- Whatever the raw text, the action that is read from it is normal. -/
theorem normal_ofRaw (raw : String) : (ofRaw raw).Normal := by
  unfold ofRaw
  dsimp only
  split
  · rename_i head hheaded
    obtain ⟨hform, hhead⟩ := (headedBlock?_eq_some_iff (trim_trim _)).mp hheaded
    exact normal_ofParts (isTypeName_iff.mpr ⟨hform.1, hhead⟩) (trim_trim _)
  · exact normal_ofColon (trim_trim _)

/-! ## Writing and reading again -/

/-- A normal action is read from the text that it is written as. -/
theorem ofRaw_toRaw_of_normal {action : Action} (h : action.Normal) : ofRaw action.toRaw = action := by
  obtain ⟨hname, -⟩ := isTypeName_iff.mp h.name
  have hraw : action.toRaw = String.ofList (action.type.toList ++ ':' :: action.data.toList) := by
    have hcolon : ":".toList = [':'] := rfl
    rw [toRaw, ← String.toList_inj, String.toList_append, String.toList_append, hcolon,
      String.toList_ofList, List.append_assoc, List.singleton_append]
  -- No written action is a block, so both readers of raw text cut it at the colon.
  have hblock : typeName? action.toRaw.toList = none := by
    rw [hraw, String.toList_ofList]
    exact typeName?_colon _ hname
  obtain ⟨hread, hsame⟩ := ofRaw_eq_of_typeName?_eq_none hblock
  rw [hread, ← hsame, hraw, read_normal _ _ h.name h.normalizeName_type, h.trimmed, String.ofList_toList]

/-- Raw text round trip.  An action that was read from raw text, whether plain, of the default type or a
block, is read again from the text that it is written as.  And the actions that come back from the text
that they are written as are those whose type is a type name in lower case and whose data is trimmed. -/
theorem ofRaw_toRaw :
    (∀ raw, ofRaw (ofRaw raw).toRaw = ofRaw raw) ∧
      ∀ action : Action, ofRaw action.toRaw = action ↔ action.Normal := by
  refine ⟨fun raw => ofRaw_toRaw_of_normal (normal_ofRaw raw), fun action => ⟨fun h => ?_,
    ofRaw_toRaw_of_normal⟩⟩
  rw [← h]
  exact normal_ofRaw _

/-- A block is written behind its own type once more, and comes back with its whole text. -/
example : ofRaw (ofRaw " Sound \x7b - \"a:1\" \x7d").toRaw =
    ⟨"sound", "Sound \x7b - \"a:1\" \x7d"⟩ := by decide +kernel

end MenuActions.Action
