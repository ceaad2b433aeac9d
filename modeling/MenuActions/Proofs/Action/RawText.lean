import MenuActions.Action
import MenuActions.Proofs.Grammar.BlockForm

/-!
# Two readers of raw text

Raw text becomes an action in two places: where a definition is read and where an action is run.
Both look for a block first and for a colon next, but they recognize the name of a block in
different ways.  The reader of definitions asks for a type name in front of the first brace, as in
front of a colon; the other one takes a run of name characters that may begin with an underscore.

`agree_iff_no_underscore_block` says exactly how far they agree: always in the data, and in the type
unless the text is a block whose name begins with an underscore.
-/

namespace MenuActions.Action

open Text Grammar.Block

/-- A type name is a name that does not begin with an underscore. -/
theorem isTypeName_iff {name : List Char} :
    isTypeName name = true ↔ IsName name ∧ name.head? ≠ some '_' := by
  cases name with
  | nil => simp [isTypeName, IsName]
  | cons first rest =>
      simp only [isTypeName, IsName, Bool.and_eq_true, List.all_eq_true, List.head?_cons]
      constructor
      · rintro ⟨hfirst, hchars⟩
        refine ⟨⟨hchars, first, rest, rfl, by simp [hfirst]⟩, ?_⟩
        rintro h
        obtain rfl : first = '_' := by simpa using h
        exact absurd hfirst (by decide)
      · rintro ⟨⟨hchars, c, more, hcons, hc⟩, hunderscore⟩
        obtain ⟨rfl, rfl⟩ := List.cons.inj hcons
        have hne : first ≠ '_' := by simpa using hunderscore
        exact ⟨by simpa [hne] using hc, hchars⟩

/-- The reader of definitions finds the blocks whose names are type names. -/
theorem headedBlock?_eq_some_iff {text head : List Char} (htrim : trim text = text) :
    headedBlock? text = some head ↔ HasForm head text ∧ head.head? ≠ some '_' := by
  unfold HasForm
  rw [htrim]
  constructor
  · intro h
    unfold headedBlock? at h
    split at h
    · rename_i front body hsplit
      obtain ⟨htext, -⟩ := splitFirst_eq_some_iff.mp hsplit
      simp only at h
      split at h
      · rename_i hcond
        obtain rfl : trimEnd front = head := by simpa using h
        simp only [Bool.and_eq_true] at hcond
        obtain ⟨⟨hname, hbody⟩, hend⟩ := hcond
        obtain ⟨hname, hhead⟩ := isTypeName_iff.mp hname
        obtain ⟨blanks, hfront, hblanks⟩ := exists_blank_of_trimEnd front
        refine ⟨⟨hname, blanks, body, ?_, hblanks, hbody, hend⟩, hhead⟩
        rw [← List.append_assoc, ← hfront]
        exact htext
      · simp at h
    · simp at h
  · rintro ⟨⟨hname, blanks, body, htext, hblanks, hbody, hend⟩, hhead⟩
    -- Neither names nor blanks have a brace, so the text is cut at the brace of the form.
    have hbrace : '{' ∉ head ++ blanks := by
      intro hmem
      rcases List.mem_append.mp hmem with hmem | hmem
      · exact absurd (hname.1 _ hmem) (by decide)
      · exact absurd (hblanks _ hmem) (by decide)
    have hsplit : splitFirst '{' text = some (head ++ blanks, body) :=
      splitFirst_eq_some_iff.mpr ⟨by rw [List.append_assoc]; exact htext, hbrace⟩
    have hfront : trimEnd (head ++ blanks) = head := by
      rw [trimEnd_append_of_blank hblanks]
      refine trimEnd_eq_self_of_last fun c hc => ?_
      exact isBlank_of_isNameChar (hname.1 c (List.mem_of_getLast? hc))
    unfold headedBlock?
    rw [hsplit]
    simp only [hfront, isTypeName_iff.mpr ⟨hname, hhead⟩, hbody, hend, Bool.and_true, if_true]

/-- A normalized name that begins with an underscore still does. -/
theorem normalizeName_underscore {rest : List Char} (h : IsName ('_' :: rest)) :
    (normalizeName (String.ofList ('_' :: rest))).toList.head? = some '_' := by
  unfold normalizeName
  rw [String.toList_ofList, String.toList_ofList, h.trim_eq]
  rfl

/-- No type name stands in front of a colon in a text that begins with an underscore. -/
theorem ofColon_of_underscore {text : List Char} (default : String)
    (h : text.head? = some '_') :
    ofColon default text = ofParts default (String.ofList text) := by
  unfold ofColon
  split
  · rename_i type data hsplit
    have hname : isTypeName type = false := by
      rw [Bool.eq_false_iff]
      intro hname
      obtain ⟨⟨-, first, rest, rfl, -⟩, hhead⟩ := isTypeName_iff.mp hname
      obtain ⟨rfl, -⟩ := splitFirst_eq_some_iff.mp hsplit
      rw [List.cons_append, List.head?_cons] at h
      exact hhead h
    rw [hname]
    rfl
  · rfl

/-- Outside of blocks the two readers do the same. -/
theorem ofRaw_eq_of_typeName?_eq_none {raw : String} (h : typeName? raw.toList = none) :
    ofRaw raw = ofColon defaultType (trim raw.toList) ∧
      read defaultType raw = ofColon defaultType (trim raw.toList) := by
  have hheaded : headedBlock? (trim raw.toList) = none := by
    cases hhead : headedBlock? (trim raw.toList) with
    | none => rfl
    | some head =>
        obtain ⟨hform, -⟩ := (headedBlock?_eq_some_iff (trim_trim _)).mp hhead
        rw [← typeName?_eq_some_iff, typeName?_trim, h] at hform
        exact absurd hform (by simp)
  constructor
  · unfold ofRaw
    simp only [hheaded]
  · unfold read
    simp only [typeName?_trim, h]

/-- A block whose name does not begin with an underscore is a block to both readers. -/
theorem ofRaw_eq_of_typeName? {raw : String} {name : List Char}
    (h : typeName? raw.toList = some name) (hhead : name.head? ≠ some '_') :
    ofRaw raw = ofParts (String.ofList name) (String.ofList (trim raw.toList)) ∧
      read defaultType raw = ofParts (String.ofList name) (String.ofList (trim raw.toList)) := by
  have hform : HasForm name (trim raw.toList) := by
    rw [← typeName?_eq_some_iff, typeName?_trim, h]
  have hheaded : headedBlock? (trim raw.toList) = some name :=
    (headedBlock?_eq_some_iff (trim_trim _)).mpr ⟨hform, hhead⟩
  constructor
  · unfold ofRaw
    simp only [hheaded]
  · unfold read
    simp only [typeName?_trim, h]

/-- A block whose name begins with an underscore is plain text of the default type to the reader of
definitions. -/
theorem ofRaw_eq_of_underscore {raw : String} {rest : List Char}
    (h : typeName? raw.toList = some ('_' :: rest)) :
    ofRaw raw = ofParts defaultType (String.ofList (trim raw.toList)) ∧
      read defaultType raw =
        ofParts (String.ofList ('_' :: rest)) (String.ofList (trim raw.toList)) := by
  have hform : HasForm ('_' :: rest) (trim raw.toList) := by
    rw [← typeName?_eq_some_iff, typeName?_trim, h]
  have hheaded : headedBlock? (trim raw.toList) = none := by
    cases hhead : headedBlock? (trim raw.toList) with
    | none => rfl
    | some head =>
        obtain ⟨hother, hne⟩ := (headedBlock?_eq_some_iff (trim_trim _)).mp hhead
        rw [← typeName?_eq_some_iff, typeName?_eq_some_iff.mpr hform, Option.some.injEq] at hother
        exact absurd (hother ▸ rfl) hne
  have hunderscore : (trim raw.toList).head? = some '_' := by
    obtain ⟨-, blanks, body, htext, -⟩ := hform
    rw [trim_trim] at htext
    rw [htext]
    rfl
  constructor
  · unfold ofRaw
    simp only [hheaded]
    exact ofColon_of_underscore defaultType hunderscore
  · unfold read
    simp only [typeName?_trim, h]

/-- The two readers of raw text always agree in the data, and they agree altogether exactly when the
text is not a block whose name begins with an underscore. -/
theorem agree_iff_no_underscore_block (raw : String) :
    (ofRaw raw).data = (read defaultType raw).data ∧
      (ofRaw raw = read defaultType raw ↔ ∀ rest, ¬HasForm ('_' :: rest) raw.toList) := by
  cases h : typeName? raw.toList with
  | none =>
      obtain ⟨hraw, hread⟩ := ofRaw_eq_of_typeName?_eq_none h
      refine ⟨by rw [hraw, hread], ⟨fun _ rest hform => ?_, fun _ => by rw [hraw, hread]⟩⟩
      rw [← typeName?_eq_some_iff, h] at hform
      exact absurd hform (by simp)
  | some name =>
      by_cases hhead : name.head? = some '_'
      · obtain ⟨rest, rfl⟩ : ∃ rest, name = '_' :: rest := List.head?_eq_some_iff.mp hhead
        obtain ⟨hraw, hread⟩ := ofRaw_eq_of_underscore h
        have hform : HasForm ('_' :: rest) raw.toList := typeName?_eq_some_iff.mp h
        refine ⟨by rw [hraw, hread]; rfl, ⟨fun heq => ?_, fun hno => absurd hform (hno rest)⟩⟩
        have htype : normalizeName defaultType =
            normalizeName (String.ofList ('_' :: rest)) := by
          rw [hraw, hread] at heq
          exact congrArg Action.type heq
        have hlast := normalizeName_underscore hform.1
        rw [← htype] at hlast
        exact absurd hlast (by decide)
      · obtain ⟨hraw, hread⟩ := ofRaw_eq_of_typeName? h hhead
        refine ⟨by rw [hraw, hread], ⟨fun _ rest hform => ?_, fun _ => by rw [hraw, hread]⟩⟩
        rw [← typeName?_eq_some_iff, h, Option.some.injEq] at hform
        exact hhead (by rw [hform]; rfl)

/-- A block named `_menu` is an action of that type to one reader and a message to the other. -/
theorem readers_differ_on_underscore_block :
    ofRaw "_menu \x7b - \"a\" \x7d" ≠ read defaultType "_menu \x7b - \"a\" \x7d" := by
  decide +kernel

end MenuActions.Action
