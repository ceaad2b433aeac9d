import MenuActions.Grammar.Values
import MenuActions.Proofs.Text.Trimming

/-!
# The form of a block

A text has the form of a block when it is trimmed to a type name, blanks, an opening brace, a body
that begins with a dash or is empty, and a closing brace.  `typeName?_eq_some_iff` says so about the
function that recognizes blocks; the other theorems of this library use that description and not the
scan behind it.
-/

namespace MenuActions.Grammar.Block

open Text

/-- The characters of names by their code points. -/
theorem isNameChar_iff {c : Char} :
    isNameChar c = true ↔
      (48 ≤ c.toNat ∧ c.toNat ≤ 57) ∨ (65 ≤ c.toNat ∧ c.toNat ≤ 90) ∨
        (97 ≤ c.toNat ∧ c.toNat ≤ 122) ∨ c.toNat = 95 ∨ c.toNat = 45 := by
  have hchar : ∀ d : Char, c = d ↔ c.toNat = d.toNat := fun d =>
    ⟨fun h => h ▸ rfl, fun h => Char.toNat_inj.mp h⟩
  have hle : ∀ a b : UInt32, a ≤ b ↔ a.toNat ≤ b.toNat := fun a b => UInt32.le_iff_toNat_le
  have hletter : c.isAlpha = (decide (c.val ≥ 'A'.val ∧ c.val ≤ 'Z'.val) ||
      (c.val ≥ 'a'.val && c.val ≤ 'z'.val)) := rfl
  have hdigit : c.isDigit = (c.val ≥ '0'.val && c.val ≤ '9'.val) := rfl
  simp only [isNameChar, Char.isAlphanum, hletter, hdigit, Bool.or_eq_true, Bool.and_eq_true,
    decide_eq_true_eq, beq_iff_eq, hchar, hle]
  show (((65 ≤ c.toNat ∧ c.toNat ≤ 90 ∨ 97 ≤ c.toNat ∧ c.toNat ≤ 122) ∨
    48 ≤ c.toNat ∧ c.toNat ≤ 57) ∨ c.toNat = 95) ∨ c.toNat = 45 ↔ _
  omega

theorem isBlank_of_isNameChar {c : Char} (h : isNameChar c = true) : isBlank c = false := by
  have hc := isNameChar_iff.mp h
  rw [Bool.eq_false_iff]
  intro hblank
  simp only [isBlank, Bool.or_eq_true, Bool.and_eq_true, decide_eq_true_eq, beq_iff_eq] at hblank
  omega

theorem isNameChar_of_isBlank {c : Char} (h : isBlank c = true) : isNameChar c = false := by
  rw [Bool.eq_false_iff]
  intro hname
  rw [isBlank_of_isNameChar hname] at h
  exact absurd h (by decide)

/-- A name: letters, digits, underscores and dashes, of which the first is a letter or an
underscore. -/
def IsName (name : List Char) : Prop :=
  (∀ c ∈ name, isNameChar c = true) ∧
    ∃ first rest, name = first :: rest ∧ (first.isAlpha || first == '_') = true

instance (name : List Char) : Decidable (IsName name) :=
  decidable_of_iff
    ((name.all isNameChar && name.head?.any fun first => first.isAlpha || first == '_') = true) (by
      cases name <;> simp [IsName])

theorem IsName.ne_nil {name : List Char} (h : IsName name) : name ≠ [] := by
  obtain ⟨-, first, rest, rfl, -⟩ := h
  exact List.cons_ne_nil first rest

/-- No character of a name is blank, so names are trimmed. -/
theorem IsName.trim_eq {name : List Char} (h : IsName name) : trim name = name :=
  trim_eq_self_of_ends
    (fun c hc => isBlank_of_isNameChar (h.1 c (List.mem_of_head? hc)))
    (fun c hc => isBlank_of_isNameChar (h.1 c (List.mem_of_getLast? hc)))

/-- A text that is trimmed to a name, blanks, an opening brace and a body up to a closing brace. -/
def HasForm (name text : List Char) : Prop :=
  IsName name ∧ ∃ blanks body, trim text = name ++ (blanks ++ '{' :: body) ∧
    (∀ c ∈ blanks, isBlank c = true) ∧ opensBody body = true ∧ endsWith '}' (trim text) = true

/-- A run of name characters ends at blanks and at an opening brace. -/
theorem span_name {name blanks : List Char} (body : List Char) (hname : ∀ c ∈ name, isNameChar c = true)
    (hblanks : ∀ c ∈ blanks, isBlank c = true) :
    (name ++ (blanks ++ '{' :: body)).takeWhile isNameChar = name ∧
      (name ++ (blanks ++ '{' :: body)).dropWhile isNameChar = blanks ++ '{' :: body := by
  cases blanks with
  | nil =>
      exact ⟨takeWhile_append_cons hname (by decide), dropWhile_append_cons hname (by decide)⟩
  | cons b blanks =>
      have hb : isNameChar b = false := isNameChar_of_isBlank (hblanks b List.mem_cons_self)
      exact ⟨takeWhile_append_cons hname hb, dropWhile_append_cons hname hb⟩

/-- The texts with the form of a block are those that are recognized as such, and the name that is
found is the one in front. -/
theorem typeName?_eq_some_iff {text name : List Char} :
    typeName? text = some name ↔ HasForm name text := by
  constructor
  · intro h
    unfold typeName? at h
    simp only at h
    split at h
    · rename_i first rest body hname hafter
      split at h
      · rename_i hcond
        simp only [Bool.and_eq_true] at hcond
        obtain ⟨⟨hfirst, hbody⟩, hend⟩ := hcond
        obtain rfl : (trim text).takeWhile isNameChar = name := by simpa using h
        obtain ⟨blanks, hsplit, hblanks, -⟩ := dropWhile_eq_cons hafter
        refine ⟨⟨fun c hc => List.all_eq_true.mp List.all_takeWhile c hc, first, rest, hname,
          hfirst⟩, blanks, body, ?_, hblanks, hbody, hend⟩
        rw [← hsplit, List.takeWhile_append_dropWhile]
      · simp at h
    · simp at h
  · rintro ⟨⟨hname, first, rest, rfl, hfirst⟩, blanks, body, htext, hblanks, hbody, hend⟩
    obtain ⟨htake, hdrop⟩ := span_name body hname hblanks
    unfold typeName?
    rw [htext] at hend ⊢
    simp only [htake, hdrop]
    rw [trimStart_append_cons hblanks (by decide)]
    simp only [hfirst, hbody, hend, Bool.and_true, if_true]

@[simp] theorem typeName?_trim (text : List Char) : typeName? (trim text) = typeName? text := by
  unfold typeName?
  rw [trim_trim]

/-- A text that does not begin with a character of a name is no block with a name. -/
theorem typeName?_eq_none_of_head {c : Char} {rest : List Char} (hblank : isBlank c = false)
    (hname : isNameChar c = false) : typeName? (c :: rest) = none := by
  cases h : typeName? (c :: rest) with
  | none => rfl
  | some name =>
      obtain ⟨⟨hchars, first, more, rfl, -⟩, blanks, body, htext, -⟩ := typeName?_eq_some_iff.mp h
      have htrim : ∃ kept, trim (c :: rest) = c :: kept ∨ trim (c :: rest) = [] := by
        unfold trim
        rw [trimStart_cons hblank]
        obtain ⟨tail, hsplit, htail⟩ := exists_blank_of_trimEnd (c :: rest)
        cases hkept : trimEnd (c :: rest) with
        | nil => exact ⟨[], Or.inr rfl⟩
        | cons d kept =>
            rw [hkept, List.cons_append] at hsplit
            obtain ⟨rfl, -⟩ := List.cons.inj hsplit
            exact ⟨kept, Or.inl rfl⟩
      obtain ⟨kept, hkept | hkept⟩ := htrim
      · rw [hkept, List.cons_append] at htext
        obtain ⟨rfl, -⟩ := List.cons.inj htext
        rw [hchars c List.mem_cons_self] at hname
        exact absurd hname (by decide)
      · rw [hkept] at htext
        exact absurd htext (by simp)

/-- A text with a colon in front of its first opening brace is no block with a name. -/
theorem typeName?_eq_none_of_colon {front : List Char} (rest : List Char) (hfront : '{' ∉ front) :
    typeName? (front ++ ':' :: rest) = none := by
  cases h : typeName? (front ++ ':' :: rest) with
  | none => rfl
  | some name =>
      obtain ⟨⟨hchars, -⟩, blanks, body, htext, hblanks, -, -⟩ := typeName?_eq_some_iff.mp h
      rw [trim_append_cons (by decide), ← List.append_assoc] at htext
      have hcolon : ':' ∉ name ++ blanks := fun hmem =>
        (List.mem_append.mp hmem).elim (fun hname => absurd (hchars ':' hname) (by decide))
          fun hblank => absurd (hblanks ':' hblank) (by decide)
      have hbrace : '{' ∉ trimStart front := fun hmem =>
        hfront ((List.dropWhile_sublist _).subset hmem)
      -- The colon would stand in the name or the blanks, or the brace in front of the colon.
      rcases List.append_eq_append_iff.mp htext with ⟨between, hname, hrest⟩ | ⟨between, hstart, hrest⟩
      · cases between with
        | nil => exact absurd (List.cons.inj hrest).1 (by decide)
        | cons c between =>
            obtain ⟨rfl, -⟩ := List.cons.inj hrest
            exact absurd (hname ▸ List.mem_append_right _ List.mem_cons_self) hcolon
      · cases between with
        | nil => exact absurd (List.cons.inj hrest).1 (by decide)
        | cons c between =>
            obtain ⟨rfl, -⟩ := List.cons.inj hrest
            exact absurd (hstart ▸ List.mem_append_right _ List.mem_cons_self) hbrace

/-! ## Blocks that are written with a name -/

section Written

variable {name blanks body : List Char}

theorem not_mem_of_isName (hname : IsName name) (hblanks : ∀ c ∈ blanks, isBlank c = true) :
    '{' ∉ name ++ blanks := by
  intro hmem
  rcases List.mem_append.mp hmem with hmem | hmem
  · exact absurd (hname.1 _ hmem) (by decide)
  · exact absurd (hblanks _ hmem) (by decide)

/-- The body of a block runs from the first opening brace to the last closing brace, whatever braces
stand between them. -/
theorem values_eq_readItems (hname : IsName name) (hblanks : ∀ c ∈ blanks, isBlank c = true) :
    values (name ++ (blanks ++ '{' :: (body ++ ['}']))) =
      readItems body (offsetIn (byteLength (name ++ blanks) + 1 + byteLength body)) body := by
  have hfirst : splitFirst '{' (name ++ (blanks ++ '{' :: (body ++ ['}']))) =
      some (name ++ blanks, body ++ ['}']) :=
    splitFirst_eq_some_iff.mpr ⟨by simp, not_mem_of_isName hname hblanks⟩
  have hlast : splitLast '}' (body ++ ['}']) = some (body, []) :=
    splitLast_append_cons (by simp)
  unfold values
  simp only [hfirst, hlast, trimStart_nil]

theorem getLast?_written (name blanks body : List Char) :
    (name ++ (blanks ++ '{' :: (body ++ ['}']))).getLast? = some '}' := by
  have htext : name ++ (blanks ++ '{' :: (body ++ ['}'])) =
      (name ++ (blanks ++ '{' :: body)) ++ ['}'] := by simp
  rw [htext, List.getLast?_concat]

theorem trim_written (blanks body : List Char) (hname : IsName name) :
    trim (name ++ (blanks ++ '{' :: (body ++ ['}']))) =
      name ++ (blanks ++ '{' :: (body ++ ['}'])) := by
  refine trim_eq_self_of_ends (fun c hc => ?_) (fun c hc => ?_)
  · obtain ⟨first, rest, hfirst⟩ := List.exists_cons_of_ne_nil hname.ne_nil
    rw [hfirst, List.cons_append, List.head?_cons, Option.some.injEq] at hc
    exact isBlank_of_isNameChar (hname.1 c (by rw [hfirst, hc]; exact List.mem_cons_self))
  · rw [getLast?_written, Option.some.injEq] at hc
    exact hc ▸ (by decide)

theorem hasForm_of_opensBody (hname : IsName name) (hblanks : ∀ c ∈ blanks, isBlank c = true)
    (hbody : opensBody (body ++ ['}']) = true) :
    HasForm name (name ++ (blanks ++ '{' :: (body ++ ['}']))) := by
  refine ⟨hname, blanks, body ++ ['}'], trim_written blanks body hname, hblanks, hbody, ?_⟩
  rw [trim_written blanks body hname, endsWith, getLast?_written]
  rfl

/-- The data of an action that is a block of its type is read as a block. -/
theorem readValues_block (hname : IsName name) (hblanks : ∀ c ∈ blanks, isBlank c = true)
    (hbody : opensBody (body ++ ['}']) = true) :
    readValues name (name ++ (blanks ++ '{' :: (body ++ ['}']))) =
      values (name ++ (blanks ++ '{' :: (body ++ ['}']))) := by
  have htype : hasType name (name ++ (blanks ++ '{' :: (body ++ ['}']))) = true := by
    unfold hasType
    rw [typeName?_eq_some_iff.mpr (hasForm_of_opensBody hname hblanks hbody)]
    simp [sameIgnoringCase, hname.trim_eq]
  unfold readValues
  rw [trim_written blanks body hname]
  simp [htype, hname.ne_nil]

/-- The body of a block without a name runs from its first character to its last. -/
theorem values_nameless (body : List Char) :
    values ('{' :: (body ++ ['}'])) = readItems body (offsetIn (1 + byteLength body)) body := by
  have hlast : splitLast '}' (body ++ ['}']) = some (body, []) := splitLast_append_cons (by simp)
  simp only [values, splitFirst, if_true, hlast, trimStart_nil, byteLength_nil, Nat.zero_add]

/-- Data that is a block without a name is read as a block, whatever the type of the action. -/
theorem readValues_nameless (type : List Char) (hbody : opensBody (body ++ ['}']) = true) :
    readValues type ('{' :: (body ++ ['}'])) = readItems body (offsetIn (1 + byteLength body)) body := by
  have htrim : trim ('{' :: (body ++ ['}'])) = '{' :: (body ++ ['}']) :=
    trim_cons_concat (by decide) (by decide)
  have hname : typeName? ('{' :: (body ++ ['}'])) = none :=
    typeName?_eq_none_of_head (by decide) (by decide)
  have hend : endsWith '}' ('{' :: (body ++ ['}'])) = true := by
    rw [endsWith, ← List.cons_append, List.getLast?_concat]
    rfl
  have hbare : isBare ('{' :: (body ++ ['}'])) = true := by
    rw [isBare, hend, hbody]
    rfl
  unfold readValues
  simp only [htrim, hasType, hname, hbare, List.isEmpty_cons, Bool.or_true, Bool.false_eq_true,
    if_false, if_true]
  exact values_nameless body

end Written

/-- A random block is a block with that name, letter case aside. -/
theorem isRandom_iff {entry : List Char} :
    isRandom entry = true ↔
      ∃ name, typeName? entry = some name ∧ name.map Char.toLower = "random".toList := by
  have hword : ("random".toList.map Char.toLower) = "random".toList := by decide
  have htrim : trim "random".toList = "random".toList := by decide
  unfold isRandom hasType
  cases typeName? entry with
  | none => simp
  | some name =>
      simp only [sameIgnoringCase, htrim, hword, beq_iff_eq, Option.some.injEq, exists_eq_left']

@[simp] theorem isRandom_trim (entry : List Char) : isRandom (trim entry) = isRandom entry := by
  rw [isRandom, isRandom, hasType, hasType, typeName?_trim]

/-- A block ends with a closing brace. -/
theorem getLast?_of_typeName? {entry name : List Char} (h : typeName? entry = some name) :
    (trim entry).getLast? = some '}' := by
  obtain ⟨-, -, -, -, -, -, hend⟩ := typeName?_eq_some_iff.mp h
  exact beq_iff_eq.mp hend

end MenuActions.Grammar.Block
