import MenuActions.Proofs.Action.RawText
import MenuActions.Proofs.Grammar.QuotedValues

/-!
# Raw texts with a type

What raw text is read as when its type stands in front: a block of that type keeps its whole text as
data, and a type before a colon is cut off.
-/

namespace MenuActions.Action

open Text Grammar.Block

/-- A block is an action of the type that its name says, with the whole text as data. -/
theorem read_of_typeName? {text name : List Char} (default : String) (htrim : trim text = text)
    (h : typeName? text = some name) :
    read default (String.ofList text) = ofParts (String.ofList name) (String.ofList text) := by
  unfold read
  rw [String.toList_ofList, htrim]
  simp only [h]

/-- Below the first code point beyond ASCII, letters are lowered one by one. -/
theorem lower_of_ascii {s : List Char} (hascii : ∀ c ∈ s, c.toNat < 0x80) :
    lower s = s.map Char.toLower := by
  have hafter : ∀ before, lowerAfter before s = s.map Char.toLower := by
    induction s with
    | nil => exact fun _ => rfl
    | cons c s ih =>
        intro before
        have hc := hascii c List.mem_cons_self
        have hsigma : c ≠ 'Σ' := by
          rintro rfl
          exact absurd hc (by decide)
        rw [lowerAfter, if_neg hsigma, lowerLetter, if_pos hc,
          ih (fun d hd => hascii d (List.mem_cons_of_mem _ hd)) (c :: before)]
        rfl
  exact hafter []

/-- A name is normalized letter by letter. -/
theorem normalizeName_ofList {name : List Char} (hname : IsName name) :
    normalizeName (String.ofList name) = String.ofList (name.map Char.toLower) := by
  have hascii : ∀ c ∈ name, c.toNat < 0x80 := by
    intro c hc
    have hrange := isNameChar_iff.mp (hname.1 c hc)
    omega
  rw [normalizeName, String.toList_ofList, hname.trim_eq, lower_of_ascii hascii]

section Colon

variable {type : List Char} (data : List Char)

/-- Behind a name and a colon, only the end of the data can be shortened. -/
theorem trim_colon (hname : IsName type) :
    trim (type ++ ':' :: data) = type ++ ':' :: trimEnd data := by
  rw [trim_append_cons (by decide), trimStart_eq_self_of_head (head_of_trim_eq_self hname.trim_eq)]

/-- A text with a name and a colon in front is no block. -/
theorem typeName?_colon (hname : IsName type) : typeName? (type ++ ':' :: data) = none :=
  typeName?_eq_none_of_colon data fun hmem => absurd (hname.1 '{' hmem) (by decide)

/-- A type in front of a colon is cut off, and the data is trimmed. -/
theorem read_colon (default : String) (htype : isTypeName type = true) :
    read default (String.ofList (type ++ ':' :: data)) =
      ofParts (String.ofList type) (String.ofList (trim data)) := by
  obtain ⟨hname, -⟩ := isTypeName_iff.mp htype
  have hsplit : splitFirst ':' (type ++ ':' :: trimEnd data) = some (type, trimEnd data) := by
    refine splitFirst_eq_some_iff.mpr ⟨rfl, fun hmem => ?_⟩
    exact absurd (hname.1 ':' hmem) (by decide)
  unfold read
  rw [String.toList_ofList, trim_colon data hname]
  simp only [typeName?_colon (trimEnd data) hname]
  rw [ofColon, hsplit]
  simp only [htype, if_true, trim_trimEnd]

/-- A type that is normal already stays as it is. -/
theorem read_normal (default : String) {type : String} (htype : isTypeName type.toList = true)
    (hnormal : normalizeName type = type) :
    read default (String.ofList (type.toList ++ ':' :: data)) =
      ⟨type, String.ofList (trim data)⟩ := by
  rw [read_colon data default htype, ofParts, String.ofList_toList, hnormal]

end Colon

end MenuActions.Action
