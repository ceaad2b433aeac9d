import MenuActions.Proofs.Grammar.BlockForm

/-!
# Reading the items of a block, one at a time

What the reader of a block does with the next item, one theorem for each form that an item can have:
a quoted value, the rest of a line, or literal lines behind a bar.  Each of them says which value is
read and where reading goes on.  Below them stand the facts on lines that the literal form needs.
-/

namespace MenuActions.Grammar.Block

open Text

/-! ## One item -/

section Items

variable {body rest after : List Char} {offset : List Char → Nat}

theorem readItems_of_blank (h : trimStart rest = []) : readItems body offset rest = .ok [] := by
  unfold readItems
  split
  · rfl
  · rename_i c tail hrest
    rw [h] at hrest
    exact absurd hrest (by simp)

/-- A quoted value, whatever it contains, ends at its closing quote. -/
theorem readItems_quoted {quoted value next : List Char} (h : trimStart rest = '-' :: after)
    (hafter : after.dropWhile isInlineBlank = '"' :: quoted)
    (hquoted : Quoted.decode quoted = some (value, next)) :
    readItems body offset rest =
      (do let values ← readItems body offset next; return value :: values) := by
  conv_lhs => unfold readItems
  split
  · rename_i hrest
    rw [h] at hrest
    exact absurd hrest (by simp)
  · rename_i c tail hrest
    rw [h] at hrest
    obtain ⟨rfl, rfl⟩ := List.cons.inj hrest
    rw [if_neg (by simp)]
    split <;> rename_i heq <;> rw [hafter] at heq
    · obtain ⟨-, rfl⟩ := List.cons.inj heq
      split
      · rename_i hnone
        rw [hquoted] at hnone
        exact absurd hnone (by simp)
      · rename_i found more hsome
        rw [hquoted, Option.some.injEq, Prod.mk.injEq] at hsome
        obtain ⟨rfl, rfl⟩ := hsome
        rfl
    all_goals simp_all

/-- Behind a bar, the lines up to the next dash in the column of this one or before it are one
value. -/
theorem readItems_literal {bar next : List Char} {lines : List (List Char)}
    (h : trimStart rest = '-' :: after) (hafter : after.dropWhile isInlineBlank = '|' :: bar)
    (hbar : firstLine (bar.dropWhile isInlineBlank) = [])
    (hlines : literalLines (column body ('-' :: after))
      (dropLineBreak (bar.dropWhile isInlineBlank)) = (lines, next)) :
    readItems body offset rest =
      (do let values ← readItems body offset next; return dedent lines :: values) := by
  -- Nothing may stand on the line of the bar, and the cursor goes on where the lines end.
  conv_lhs => unfold readItems
  split
  · rename_i hrest
    rw [h] at hrest
    exact absurd hrest (by simp)
  · rename_i c tail hrest
    rw [h] at hrest
    obtain ⟨rfl, rfl⟩ := List.cons.inj hrest
    rw [if_neg (by simp)]
    split <;> rename_i heq <;> rw [hafter] at heq
    · simp at heq
    · obtain ⟨-, rfl⟩ := List.cons.inj heq
      split
      · rename_i hfound
        rw [hbar] at hfound
        exact absurd hfound (by simp)
      · split
        rename_i found more hfound
        rw [hlines, Prod.mk.injEq] at hfound
        obtain ⟨rfl, rfl⟩ := hfound
        rfl
    all_goals simp_all

/-- Any other value takes the rest of its line. -/
theorem readItems_bare {c : Char} {bare : List Char} (h : trimStart rest = '-' :: after)
    (hafter : after.dropWhile isInlineBlank = c :: bare) (hquote : c ≠ '"') (hbar : c ≠ '|')
    (hbreak : isLineBreak c = false) :
    readItems body offset rest =
      (do
        let values ← readItems body offset (afterFirstLine (c :: bare))
        return trim (firstLine (c :: bare)) :: values) := by
  conv_lhs => unfold readItems
  split
  · rename_i hrest
    rw [h] at hrest
    exact absurd hrest (by simp)
  · rename_i d tail hrest
    rw [h] at hrest
    obtain ⟨rfl, rfl⟩ := List.cons.inj hrest
    rw [if_neg (by simp)]
    split <;> rename_i heq <;> rw [hafter] at heq
    · exact absurd (List.cons.inj heq).1 hquote
    · exact absurd (List.cons.inj heq).1 hbar
    · simp at heq
    · obtain ⟨rfl, -⟩ := List.cons.inj heq
      exact absurd hbreak (by decide)
    · obtain ⟨rfl, -⟩ := List.cons.inj heq
      exact absurd hbreak (by decide)
    · rw [← hafter]

end Items

/-! ## Lines -/

/-- Text without a line break. -/
def IsLine (line : List Char) : Prop :=
  ∀ c ∈ line, isLineBreak c = false

instance (line : List Char) : Decidable (IsLine line) :=
  decidable_of_iff ((line.all fun c => !isLineBreak c) = true) (by simp [IsLine])

theorem isLine_iff {line : List Char} : IsLine line ↔ '\n' ∉ line ∧ '\r' ∉ line := by
  constructor
  · intro h
    exact ⟨fun hmem => absurd (h _ hmem) (by decide), fun hmem => absurd (h _ hmem) (by decide)⟩
  · rintro ⟨hfeed, hreturn⟩ c hc
    have hnofeed : c ≠ '\n' := fun heq => hfeed (heq ▸ hc)
    have hnoreturn : c ≠ '\r' := fun heq => hreturn (heq ▸ hc)
    simp [isLineBreak, hnofeed, hnoreturn]

theorem firstLine_append {line : List Char} (rest : List Char) (h : IsLine line) :
    firstLine (line ++ '\n' :: rest) = line :=
  takeWhile_append_cons (p := fun c => !isLineBreak c) (fun a ha => by simp [h a ha]) (by decide)

theorem afterFirstLine_append {line : List Char} (rest : List Char) (h : IsLine line) :
    afterFirstLine (line ++ '\n' :: rest) = '\n' :: rest :=
  dropWhile_append_cons (p := fun c => !isLineBreak c) (fun a ha => by simp [h a ha]) (by decide)

/-- A line that opens no item belongs to the literal value. -/
theorem literalLines_append {marker : Nat} {line : List Char} (rest : List Char)
    (hline : IsLine line) (hopen : opensItem marker line = false) :
    literalLines marker (line ++ '\n' :: rest) =
      (line :: (literalLines marker rest).1, (literalLines marker rest).2) := by
  have hfirst := firstLine_append rest hline
  have hafter := afterFirstLine_append rest hline
  cases htext : line ++ '\n' :: rest with
  | nil => simp at htext
  | cons c s =>
      rw [htext] at hfirst hafter
      rw [literalLines]
      simp only [hfirst, hafter, hopen, Bool.false_eq_true, if_false]
      rfl

/-- A literal value ends in front of a line that opens an item. -/
theorem literalLines_of_opensItem {marker : Nat} {text : List Char}
    (hopen : opensItem marker (firstLine text) = true) :
    literalLines marker text = ([], text) := by
  cases text with
  | nil => rw [literalLines]
  | cons c s =>
      rw [literalLines]
      simp only [hopen, if_true]

theorem indentation_append {blanks : List Char} (line : List Char)
    (hblanks : ∀ c ∈ blanks, isInlineBlank c = true) :
    indentation (blanks ++ line) = blanks.length + indentation line := by
  unfold indentation
  rw [List.takeWhile_append_of_pos hblanks, List.length_append]

/-- What stands behind a visible character does not change how far a line is indented. -/
theorem indentation_append_of_visible {line : List Char} (tail : List Char)
    (hvisible : isBlankText line = false) : indentation (line ++ tail) = indentation line := by
  obtain ⟨front, c, back, rfl, hc⟩ := exists_visible hvisible
  have hinline : isInlineBlank c = false := isInlineBlank_of_not_blank hc
  rw [List.append_assoc, List.cons_append, indentation, indentation, (span_append_cons hinline).1,
    (span_append_cons hinline).1]

theorem isInlineBlank_of_mem_replicate {n : Nat} {c : Char} (hc : c ∈ List.replicate n ' ') :
    isInlineBlank c = true := by
  rw [List.eq_of_mem_replicate hc]
  decide

theorem indentation_replicate_append (n : Nat) (line : List Char) :
    indentation (List.replicate n ' ' ++ line) = n + indentation line := by
  rw [indentation_append line fun _ => isInlineBlank_of_mem_replicate, List.length_replicate]

/-- A line that is indented further than the dash opens no item. -/
theorem opensItem_eq_false {marker n : Nat} {line : List Char} (h : marker < n) :
    opensItem marker (List.replicate n ' ' ++ line) = false := by
  unfold opensItem
  rw [indentation_replicate_append]
  have hle : ¬n + indentation line ≤ marker := by omega
  simp [hle]

/-- A line that is indented like the dash and goes on with a dash opens an item. -/
theorem opensItem_dash (marker : Nat) (line : List Char) :
    opensItem marker (List.replicate marker ' ' ++ '-' :: line) = true := by
  have hblank : ∀ a ∈ List.replicate marker ' ', isInlineBlank a = true := fun _ =>
    isInlineBlank_of_mem_replicate
  have hindent : indentation ('-' :: line) = 0 := rfl
  unfold opensItem
  rw [indentation_replicate_append, hindent, dropWhile_append_cons hblank (by decide)]
  simp

theorem column_append (front rest : List Char) :
    column (front ++ rest) rest = (front.reverse.takeWhile (· != '\n')).length := by
  have htake : (front ++ rest).take ((front ++ rest).length - rest.length) = front := by
    rw [List.length_append, Nat.add_sub_cancel, List.take_left']
    rfl
  rw [column, htake]

/-- The column of what stands behind a line break and `before`. -/
theorem column_eq {body front before rest : List Char}
    (hbody : body = front ++ '\n' :: (before ++ rest)) (hbefore : '\n' ∉ before) :
    column body rest = before.length := by
  have hcut : body = (front ++ '\n' :: before) ++ rest := by
    rw [hbody]
    simp
  rw [hcut, column_append, List.reverse_append, List.reverse_cons, List.append_assoc,
    List.singleton_append, takeWhile_append_cons (p := (· != '\n')) ?_ (by decide), List.length_reverse]
  intro a ha
  have hne : a ≠ '\n' := fun heq => hbefore (heq ▸ List.mem_reverse.mp ha)
  simpa using hne

/-! ## Lines at the margin -/

/-- How far all lines are indented, blank ones aside. -/
def margin (lines : List (List Char)) : Nat :=
  ((lines.filter fun line => !isBlankText line).map indentation).min?.getD 0

/-- A line without its first `width` characters; a blank line is left empty. -/
def outdent (width : Nat) (line : List Char) : List Char :=
  if isBlankText line then [] else line.drop width

theorem dedent_eq_trimEnd (lines : List (List Char)) :
    dedent lines =
      trimEnd (joinWith ['\n'] ((lines.map (outdent (margin lines))).dropWhile List.isEmpty)) :=
  rfl

theorem mem_filter_visible {lines : List (List Char)} {line : List Char} :
    (line ∈ lines.filter fun line => !isBlankText line) ↔ line ∈ lines ∧ isBlankText line = false := by
  simp [List.mem_filter]

theorem margin_le {lines : List (List Char)} {line : List Char} (hline : line ∈ lines)
    (hvisible : isBlankText line = false) : margin lines ≤ indentation line :=
  List.min?_getD_le_of_mem (List.mem_map_of_mem (mem_filter_visible.mpr ⟨hline, hvisible⟩))

/-- Some visible line is indented no further than all of them. -/
theorem exists_indentation_eq {lines : List (List Char)}
    (h : ∃ line ∈ lines, isBlankText line = false) :
    ∃ line ∈ lines, isBlankText line = false ∧ indentation line = margin lines := by
  obtain ⟨visible, hvisible, hblank⟩ := h
  have hmem := List.mem_map_of_mem (f := indentation) (mem_filter_visible.mpr ⟨hvisible, hblank⟩)
  obtain ⟨least, hleast⟩ := Option.isSome_iff_exists.mp (List.isSome_min?_of_mem hmem)
  obtain ⟨line, hline, hindent⟩ := List.mem_map.mp (List.min?_mem hleast)
  obtain ⟨hline, hblank⟩ := mem_filter_visible.mp hline
  refine ⟨line, hline, hblank, ?_⟩
  rw [margin, hleast, hindent, Option.getD_some]

theorem outdent_of_blank (width : Nat) {line : List Char} (h : isBlankText line = true) :
    outdent width line = [] :=
  if_pos h

theorem outdent_of_visible (width : Nat) {line : List Char} (h : isBlankText line = false) :
    outdent width line = line.drop width := by
  rw [outdent, h]
  rfl

end MenuActions.Grammar.Block
