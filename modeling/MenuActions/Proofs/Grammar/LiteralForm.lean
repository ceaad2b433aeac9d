import MenuActions.Proofs.Grammar.BlockRoundTrip
import MenuActions.Proofs.Grammar.LineEndings
import Mathlib.Data.List.Forall2

/-!
# The normal form of literal values

Literal lines are moved to the left as far as all of them can go, and the blanks around them are dropped.
What is left is empty, or it is a text that can be written as literal lines again (`Item.IsLiteral`), and
bringing its own lines to the margin leaves it as it is.

`Visible` cuts the lines at the first and at the last that is not blank, and `Visible.linesOf_dedent` gives
the lines of the value: one for each of those between the cuts, moved to the left by `margin`, where the last
one ends with its last visible character.  `Outdents` says what such a move does to a line.

The parts of the normal form are read off that list.  The value is its own normal form because literal texts
are: they are the texts that their own lines are brought to (`isLiteral_iff`).
-/

namespace MenuActions.Grammar.Block

open Text

/-! ## One line -/

/-- `found` is `line` moved to the left by `width` spaces and tabs; a blank line becomes empty. -/
inductive Outdents (width : Nat) : List Char → List Char → Prop
  | blank {line : List Char} : isBlankText line = true → Outdents width line []
  | visible {blanks line : List Char} : blanks.length = width →
      (∀ c ∈ blanks, isInlineBlank c = true) → isBlankText line = false →
      Outdents width (blanks ++ line) line

theorem isBlankText_of_inline {blanks : List Char} (h : ∀ c ∈ blanks, isInlineBlank c = true) :
    isBlankText blanks = true :=
  isBlankText_iff.mpr fun c hc => isBlank_of_isInlineBlank (h c hc)

/-- A line that is indented far enough loses nothing but spaces and tabs. -/
theorem outdents_outdent {width : Nat} {line : List Char}
    (h : isBlankText line = false → width ≤ indentation line) :
    Outdents width line (outdent width line) := by
  cases hblank : isBlankText line with
  | true =>
      rw [outdent_of_blank width hblank]
      exact .blank hblank
  | false =>
      have hwidth := h hblank
      have hsplit : line.take width ++ line.drop width = line := List.take_append_drop width line
      have htake : line.take width = (line.takeWhile isInlineBlank).take width := by
        conv_lhs => rw [← List.takeWhile_append_dropWhile (p := isInlineBlank) (l := line)]
        exact List.take_append_of_le_length hwidth
      have hinline : ∀ c ∈ line.take width, isInlineBlank c = true := fun c hc =>
        List.all_eq_true.mp List.all_takeWhile c (List.mem_of_mem_take (htake ▸ hc))
      have hlength : (line.take width).length = width := by
        rw [htake, List.length_take]
        exact Nat.min_eq_left hwidth
      have hvisible : isBlankText (line.drop width) = false := by
        rw [← hsplit, isBlankText_append, isBlankText_of_inline hinline, Bool.true_and] at hblank
        exact hblank
      have hmoved := Outdents.visible hlength hinline hvisible
      rw [hsplit] at hmoved
      rwa [outdent_of_visible width hblank]

namespace Outdents

variable {width : Nat} {line found : List Char}

theorem isBlankText_eq (h : Outdents width line found) : isBlankText found = isBlankText line := by
  cases h with
  | blank hblank => exact hblank.symm
  | visible _ hinline _ => rw [isBlankText_append, isBlankText_of_inline hinline, Bool.true_and]

theorem eq_nil_iff (h : Outdents width line found) : found = [] ↔ isBlankText line = true := by
  constructor
  · rintro rfl
    exact h.isBlankText_eq.symm
  · intro hblank
    cases h with
    | blank _ => rfl
    | visible _ _ hvisible =>
        rw [isBlankText_append, hvisible, Bool.and_false] at hblank
        exact absurd hblank (by decide)

theorem indentation_eq (h : Outdents width line found) (hvisible : isBlankText line = false) :
    indentation line = width + indentation found := by
  cases h with
  | blank hblank => exact absurd (hblank.symm.trans hvisible) (by decide)
  | visible hlength hinline _ => rw [indentation_append _ hinline, hlength]

theorem subset (h : Outdents width line found) : found ⊆ line := by
  cases h with
  | blank _ => exact List.nil_subset line
  | visible _ _ _ => exact List.subset_append_right _ _

end Outdents

/-! ## Lines put together -/

theorem joinWith_append (lines : List (List Char)) (next : List Char) (more : List (List Char)) :
    joinWith ['\n'] (lines ++ next :: more) = writeLines lines ++ joinWith ['\n'] (next :: more) := by
  induction lines with
  | nil => rfl
  | cons line lines ih =>
      obtain ⟨second, rest, hsecond⟩ : ∃ second rest, lines ++ next :: more = second :: rest :=
        List.exists_cons_of_ne_nil (by simp)
      have hwrite : writeLines (line :: lines) = line ++ ['\n'] ++ writeLines lines := rfl
      rw [List.cons_append, hsecond, joinWith_cons_cons, ← hsecond, ih, hwrite]
      simp only [List.append_assoc]

/-- Blank lines behind a line are blanks behind it. -/
theorem exists_joinWith_eq (line : List Char) {back : List (List Char)}
    (hback : ∀ other ∈ back, isBlankText other = true) :
    ∃ blanks, joinWith ['\n'] (line :: back) = line ++ blanks ∧ isBlankText blanks = true := by
  induction back generalizing line with
  | nil => exact ⟨[], (List.append_nil line).symm, rfl⟩
  | cons next back ih =>
      obtain ⟨blanks, hjoin, hblanks⟩ := ih next fun other hother =>
        hback other (List.mem_cons_of_mem next hother)
      refine ⟨['\n'] ++ (next ++ blanks), ?_, ?_⟩
      · rw [joinWith_cons_cons, hjoin, List.append_assoc]
      · rw [isBlankText_append, isBlankText_append, hback next List.mem_cons_self, hblanks]
        rfl

theorem linesOf_writeLines {lines : List (List Char)} {last : List Char}
    (hlines : ∀ line ∈ lines, '\n' ∉ line) (hlast : '\n' ∉ last) :
    linesOf (writeLines lines ++ last) = lines ++ [last] := by
  induction lines with
  | nil => exact splitAll_of_not_mem hlast
  | cons line lines ih =>
      have hwrite : writeLines (line :: lines) ++ last = line ++ '\n' :: (writeLines lines ++ last) := by
        simp [writeLines]
      have hline := splitAll_of_not_mem (hlines line List.mem_cons_self)
      rw [hwrite, linesOf, splitAll_append, hline, ← linesOf,
        ih fun other hother => hlines other (List.mem_cons_of_mem line hother)]
      rfl

theorem not_mem_writeLines {c : Char} {lines : List (List Char)} (hc : c ≠ '\n')
    (hlines : ∀ line ∈ lines, c ∉ line) : c ∉ writeLines lines := by
  intro hmem
  obtain ⟨line, hline, hin⟩ := List.mem_flatMap.mp hmem
  rcases List.mem_append.mp hin with hin | hin
  · exact hlines line hline hin
  · exact hc (List.mem_singleton.mp hin)

/-! ## The lines that are kept -/

/-- `kept` and `last` are the lines from the first to the last visible one; the lines around them are
blank. -/
structure Visible (lines kept : List (List Char)) (last : List Char) : Prop where
  around : ∃ front back, lines = front ++ ((kept ++ [last]) ++ back) ∧
    (∀ line ∈ front, isBlankText line = true) ∧ ∀ line ∈ back, isBlankText line = true
  first : ∃ first rest, kept ++ [last] = first :: rest ∧ isBlankText first = false
  last : isBlankText last = false

theorem exists_last_visible {lines : List (List Char)} (h : ∃ line ∈ lines, isBlankText line = false) :
    ∃ kept last back, lines = kept ++ last :: back ∧ isBlankText last = false ∧
      ∀ line ∈ back, isBlankText line = true := by
  induction lines with
  | nil => simp at h
  | cons line lines ih =>
      by_cases hlines : ∃ line ∈ lines, isBlankText line = false
      · obtain ⟨kept, last, back, rfl, hlast, hback⟩ := ih hlines
        exact ⟨line :: kept, last, back, rfl, hlast, hback⟩
      · simp only [not_exists, not_and, Bool.not_eq_false] at hlines
        obtain ⟨visible, hmem, hvisible⟩ := h
        rcases List.mem_cons.mp hmem with rfl | hmem
        · exact ⟨[], visible, lines, rfl, hvisible, hlines⟩
        · exact absurd ((hlines visible hmem).symm.trans hvisible) (by decide)

theorem blank_or_visible (lines : List (List Char)) :
    (∀ line ∈ lines, isBlankText line = true) ∨ ∃ kept last, Visible lines kept last := by
  cases hrest : lines.dropWhile isBlankText with
  | nil => exact Or.inl (List.dropWhile_eq_nil_iff.mp hrest)
  | cons first rest =>
      obtain ⟨front, hlines, hfront, hfirst⟩ := dropWhile_eq_cons hrest
      obtain ⟨kept, last, back, hkept, hlast, hback⟩ :=
        exists_last_visible ⟨first, List.mem_cons_self, hfirst⟩
      rw [hkept, List.append_cons] at hlines
      refine Or.inr ⟨kept, last, ⟨front, back, hlines, hfront, hback⟩, ?_, hlast⟩
      cases kept with
      | nil => exact ⟨last, [], rfl, hlast⟩
      | cons line kept =>
          obtain ⟨rfl, -⟩ := List.cons.inj hkept
          exact ⟨first, kept ++ [last], rfl, hfirst⟩

theorem eq_nil_of_mem_map_outdent {width : Nat} {lines : List (List Char)} {found : List Char}
    (hlines : ∀ line ∈ lines, isBlankText line = true) (h : found ∈ lines.map (outdent width)) :
    found = [] := by
  obtain ⟨line, hline, rfl⟩ := List.mem_map.mp h
  exact outdent_of_blank width (hlines line hline)

theorem dedent_of_blank {lines : List (List Char)} (h : ∀ line ∈ lines, isBlankText line = true) :
    dedent lines = [] := by
  have hdrop : (lines.map (outdent (margin lines))).dropWhile List.isEmpty = [] := by
    rw [List.dropWhile_eq_nil_iff]
    intro found hfound
    rw [eq_nil_of_mem_map_outdent h hfound]
    rfl
  rw [dedent_eq_trimEnd, hdrop]
  rfl

namespace Visible

variable {lines kept : List (List Char)} {last : List Char}

theorem mem (h : Visible lines kept last) {line : List Char} (hline : line ∈ kept ++ [last]) :
    line ∈ lines := by
  obtain ⟨front, back, rfl, -, -⟩ := h.around
  exact List.mem_append_right front (List.mem_append_left back hline)

theorem last_mem (h : Visible lines kept last) : last ∈ lines :=
  h.mem (List.mem_append_right kept List.mem_cons_self)

/-- A line that is not blank stands between the first and the last of them. -/
theorem mem_of_visible (h : Visible lines kept last) {line : List Char} (hline : line ∈ lines)
    (hvisible : isBlankText line = false) : line ∈ kept ++ [last] := by
  obtain ⟨front, back, rfl, hfront, hback⟩ := h.around
  rw [List.mem_append, List.mem_append] at hline
  rcases hline with hline | hline | hline
  · exact absurd ((hfront line hline).symm.trans hvisible) (by decide)
  · exact hline
  · exact absurd ((hback line hline).symm.trans hvisible) (by decide)

theorem outdents (h : Visible lines kept last) {line : List Char} (hline : line ∈ kept ++ [last]) :
    Outdents (margin lines) line (outdent (margin lines) line) :=
  outdents_outdent (margin_le (h.mem hline))

theorem outdents_kept (h : Visible lines kept last) :
    List.Forall₂ (Outdents (margin lines)) kept (kept.map (outdent (margin lines))) :=
  List.forall₂_map_right_iff.mpr <| List.forall₂_same.mpr fun _ hline =>
    h.outdents (List.mem_append_left [last] hline)

theorem outdents_last (h : Visible lines kept last) :
    Outdents (margin lines) last (outdent (margin lines) last) :=
  h.outdents (List.mem_append_right kept List.mem_cons_self)

theorem first_outdent (h : Visible lines kept last) :
    ∃ first rest, (kept ++ [last]).map (outdent (margin lines)) = first :: rest ∧
      first.isEmpty = false := by
  obtain ⟨first, rest, hkept, hvisible⟩ := h.first
  have hmem : first ∈ kept ++ [last] := by
    rw [hkept]
    exact List.mem_cons_self
  have hmoved := h.outdents hmem
  refine ⟨_, _, by rw [hkept, List.map_cons], ?_⟩
  rw [List.isEmpty_eq_false_iff]
  intro hnil
  exact absurd ((hmoved.eq_nil_iff.mp hnil).symm.trans hvisible) (by decide)

/-- Only the blank lines in front are left out when the lines at the margin are put together. -/
theorem dropWhile_outdent (h : Visible lines kept last) :
    ∃ back, (lines.map (outdent (margin lines))).dropWhile List.isEmpty =
        kept.map (outdent (margin lines)) ++ outdent (margin lines) last :: back ∧
      ∀ line ∈ back, isBlankText line = true := by
  obtain ⟨front, back, hlines, hfront, hback⟩ := h.around
  refine ⟨back.map (outdent (margin lines)), ?_, fun found hfound => ?_⟩
  · have hempty : ∀ found ∈ front.map (outdent (margin lines)), found.isEmpty = true := by
      intro found hfound
      rw [eq_nil_of_mem_map_outdent hfront hfound]
      rfl
    obtain ⟨first, rest, hmiddle, hfirst⟩ := h.first_outdent
    have hmap := congrArg (List.map (outdent (margin lines))) hlines
    rw [List.map_append, List.map_append, hmiddle, List.cons_append] at hmap
    rw [hmap, List.dropWhile_append_of_pos hempty, List.dropWhile_cons_of_neg (by simp [hfirst]),
      ← List.cons_append, ← hmiddle]
    simp
  · rw [eq_nil_of_mem_map_outdent hback hfound]
    rfl

/-- The value is written from the lines at the margin, of which the last one ends with its last visible
character. -/
theorem dedent_eq (h : Visible lines kept last) :
    dedent lines = writeLines (kept.map (outdent (margin lines))) ++
      trimEnd (outdent (margin lines) last) := by
  have hlast : isBlankText (outdent (margin lines) last) = false :=
    h.outdents_last.isBlankText_eq.trans h.last
  obtain ⟨back, hdrop, hback⟩ := h.dropWhile_outdent
  obtain ⟨blanks, hjoin, hblanks⟩ := exists_joinWith_eq (outdent (margin lines) last) hback
  rw [dedent_eq_trimEnd, hdrop, joinWith_append, hjoin, ← List.append_assoc,
    trimEnd_append_of_blank (isBlankText_iff.mp hblanks), trimEnd_append_of_visible _ hlast]

theorem not_mem_outdent (h : Visible lines kept last) {c : Char} (hlines : ∀ line ∈ lines, c ∉ line)
    {line : List Char} (hline : line ∈ kept ++ [last]) : c ∉ outdent (margin lines) line :=
  fun hmem => hlines line (h.mem hline) ((h.outdents hline).subset hmem)

theorem not_mem_map_outdent (h : Visible lines kept last) {c : Char}
    (hlines : ∀ line ∈ lines, c ∉ line) : ∀ found ∈ kept.map (outdent (margin lines)), c ∉ found := by
  intro found hfound
  obtain ⟨line, hline, rfl⟩ := List.mem_map.mp hfound
  exact h.not_mem_outdent hlines (List.mem_append_left [last] hline)

theorem not_mem_ending (h : Visible lines kept last) {c : Char} (hlines : ∀ line ∈ lines, c ∉ line) :
    c ∉ trimEnd (outdent (margin lines) last) := fun hmem =>
  h.not_mem_outdent hlines (List.mem_append_right kept List.mem_cons_self) (mem_of_mem_trimEnd hmem)

/-- The lines of the value, one for each of those that are kept. -/
theorem linesOf_dedent (h : Visible lines kept last) (hlines : ∀ line ∈ lines, IsLine line) :
    linesOf (dedent lines) =
      kept.map (outdent (margin lines)) ++ [trimEnd (outdent (margin lines) last)] := by
  have hfeed : ∀ line ∈ lines, '\n' ∉ line := fun line hline => (isLine_iff.mp (hlines line hline)).1
  rw [h.dedent_eq]
  exact linesOf_writeLines (h.not_mem_map_outdent hfeed) (h.not_mem_ending hfeed)

/-- Characters other than line feeds come from the lines. -/
theorem not_mem_dedent (h : Visible lines kept last) {c : Char} (hc : c ≠ '\n')
    (hlines : ∀ line ∈ lines, c ∉ line) : c ∉ dedent lines := by
  rw [h.dedent_eq, List.mem_append, not_or]
  exact ⟨not_mem_writeLines hc (h.not_mem_map_outdent hlines), h.not_mem_ending hlines⟩

/-- The last line is still visible without the blanks at its end, and indented by the margin less. -/
theorem ending (h : Visible lines kept last) :
    isBlankText (trimEnd (outdent (margin lines) last)) = false ∧
      indentation last = margin lines + indentation (trimEnd (outdent (margin lines) last)) := by
  obtain ⟨blanks, hsplit, -⟩ := exists_blank_of_trimEnd (outdent (margin lines) last)
  have hvisible : isBlankText (trimEnd (outdent (margin lines) last)) = false := by
    rw [isBlankText_trimEnd, h.outdents_last.isBlankText_eq, h.last]
  refine ⟨hvisible, ?_⟩
  rw [h.outdents_last.indentation_eq h.last]
  conv_lhs => rw [hsplit, indentation_append_of_visible blanks hvisible]

end Visible

/-! ## The normal form -/

/-- The lines of `value` are `kept` and `last` moved to the left by `width`, so that each of them is indented
by `width` less than it was; the last line has lost the blanks at its end besides. -/
structure AtMargin (width : Nat) (kept : List (List Char)) (last value : List Char) : Prop where
  outdented : ∃ found ending blanks, linesOf value = found ++ [ending] ∧ isBlankText blanks = true ∧
    List.Forall₂ (Outdents width) kept found ∧ Outdents width last (ending ++ blanks)
  indented : List.Forall₂
    (fun line found => isBlankText line = false → indentation line = width + indentation found)
    (kept ++ [last]) (linesOf value)

namespace Visible

variable {lines kept : List (List Char)} {last : List Char}

theorem atMargin (h : Visible lines kept last) (hlines : ∀ line ∈ lines, IsLine line) :
    AtMargin (margin lines) kept last (dedent lines) := by
  refine ⟨?_, ?_⟩
  · obtain ⟨blanks, hsplit, hblanks⟩ := exists_blank_of_trimEnd (outdent (margin lines) last)
    refine ⟨_, _, blanks, h.linesOf_dedent hlines, isBlankText_iff.mpr hblanks, h.outdents_kept, ?_⟩
    rw [← hsplit]
    exact h.outdents_last
  · rw [h.linesOf_dedent hlines]
    exact List.rel_append
      (h.outdents_kept.imp fun _ _ hmoved hvisible => hmoved.indentation_eq hvisible)
      (.cons (fun _ => h.ending.2) .nil)

/-- The line that is indented least begins at the margin. -/
theorem exists_flush (h : Visible lines kept last) (hlines : ∀ line ∈ lines, IsLine line) :
    ∃ found ∈ linesOf (dedent lines), isBlankText found = false ∧ Item.IsFlush found := by
  obtain ⟨line, hline, hvisible, hleast⟩ := exists_indentation_eq ⟨last, h.last_mem, h.last⟩
  rw [h.linesOf_dedent hlines]
  rcases List.mem_append.mp (h.mem_of_visible hline hvisible) with hkept | hlast
  · have hmoved := h.outdents (List.mem_append_left [last] hkept)
    have hindent := hmoved.indentation_eq hvisible
    exact ⟨_, List.mem_append_left _ (List.mem_map_of_mem hkept), hmoved.isBlankText_eq.trans hvisible,
      indentation_eq_zero_iff.mp (by omega)⟩
  · obtain rfl := List.mem_singleton.mp hlast
    obtain ⟨hending, hindent⟩ := h.ending
    exact ⟨_, List.mem_append_right _ List.mem_cons_self, hending,
      indentation_eq_zero_iff.mp (by omega)⟩

/-- Lines that are not all blank are brought to a text that can be written as literal lines. -/
theorem isLiteral (h : Visible lines kept last) (hlines : ∀ line ∈ lines, IsLine line) :
    Item.IsLiteral (dedent lines) := by
  have hreturn : ∀ line ∈ lines, '\r' ∉ line := fun line hline => (isLine_iff.mp (hlines line hline)).2
  refine ⟨h.not_mem_dedent (by decide) hreturn, ?_, ?_, ?_, h.exists_flush hlines⟩
  · rw [dedent_eq_trimEnd, trimEnd_trimEnd]
  · rw [h.linesOf_dedent hlines]
    obtain ⟨first, rest, hkept, hfirst⟩ := h.first
    cases kept with
    | nil => exact ⟨_, [], rfl, h.ending.1⟩
    | cons line kept =>
        obtain ⟨rfl, -⟩ := List.cons.inj hkept
        exact ⟨_, _, rfl, (h.outdents List.mem_cons_self).isBlankText_eq.trans hfirst⟩
  · intro found hfound hblank
    rw [h.linesOf_dedent hlines, List.mem_append, List.mem_singleton] at hfound
    rcases hfound with hfound | rfl
    · obtain ⟨line, hline, rfl⟩ := List.mem_map.mp hfound
      have hmoved := h.outdents (List.mem_append_left [last] hline)
      exact hmoved.eq_nil_iff.mpr (hmoved.isBlankText_eq ▸ hblank)
    · exact absurd (hblank.symm.trans h.ending.1) (by decide)

end Visible

/-- The lines of a literal value stand at the margin. -/
theorem dedent_linesOf {value : List Char} (h : Item.IsLiteral value) :
    dedent (linesOf value) = value := by
  have hsame : (linesOf value).map (indentLine 0) = linesOf value := by
    refine (List.map_congr_left fun line _ => ?_).trans (List.map_id _)
    by_cases hline : line = []
    · rw [indentLine, if_pos hline, hline]
      rfl
    · rw [indentLine, if_neg hline]
      rfl
  have hvalue := dedent_indentLine 0 h
  rwa [hsame] at hvalue

/-- The texts that can be written as literal lines are those that their own lines are brought to. -/
theorem isLiteral_iff {value : List Char} :
    Item.IsLiteral value ↔ value ≠ [] ∧ '\r' ∉ value ∧ dedent (linesOf value) = value := by
  constructor
  · intro h
    refine ⟨?_, h.no_return, dedent_linesOf h⟩
    rintro rfl
    obtain ⟨line, rest, hlines, hvisible⟩ := h.first
    obtain ⟨rfl, -⟩ : [] = line ∧ [] = rest := by simpa [linesOf, splitAll] using hlines
    exact absurd hvisible (by decide)
  · rintro ⟨hne, hreturn, hsame⟩
    have hlines : ∀ line ∈ linesOf value, IsLine line := fun line => isLine_of_mem_linesOf hreturn
    rcases blank_or_visible (linesOf value) with hblank | ⟨kept, last, hvisible⟩
    · exact absurd (hsame.symm.trans (dedent_of_blank hblank)) hne
    · have hliteral := hvisible.isLiteral hlines
      rwa [hsame] at hliteral

/-- Literal lines that are all blank are brought to the empty text.  All other literal lines are brought to a
text that can be written as literal lines, in which the lines from the first to the last visible one stand
further to the left by one width.  In both cases the value is what its own lines are brought to. -/
theorem dedent_normal {lines : List (List Char)} (hlines : ∀ line ∈ lines, IsLine line) :
    ((∀ line ∈ lines, isBlankText line = true) ∧ dedent lines = [] ∨
      Item.IsLiteral (dedent lines) ∧ ∃ width kept last,
        Visible lines kept last ∧ AtMargin width kept last (dedent lines)) ∧
      dedent (linesOf (dedent lines)) = dedent lines := by
  rcases blank_or_visible lines with hblank | ⟨kept, last, hvisible⟩
  · have hnil := dedent_of_blank hblank
    refine ⟨Or.inl ⟨hblank, hnil⟩, ?_⟩
    rw [hnil]
    rfl
  · have hliteral := hvisible.isLiteral hlines
    exact ⟨Or.inr ⟨hliteral, margin lines, kept, last, hvisible, hvisible.atMargin hlines⟩,
      dedent_linesOf hliteral⟩

/-- Five lines of which three are kept: one further in behind a tab, one with a wide space only and one with
blanks at its end. -/
theorem dedent_normal_mixed :
    dedent ["\t".toList, "\t  a".toList, " \u3000".toList, "  b \t".toList, []] = " a\n\nb".toList ∧
      Item.IsLiteral " a\n\nb".toList ∧
      (∃ width kept last,
        Visible ["\t".toList, "\t  a".toList, " \u3000".toList, "  b \t".toList, []] kept last ∧
          AtMargin width kept last " a\n\nb".toList) ∧
      dedent (linesOf " a\n\nb".toList) = " a\n\nb".toList := by
  have hlines : ∀ line ∈ ["\t".toList, "\t  a".toList, " \u3000".toList, "  b \t".toList, []],
      IsLine line := by
    decide
  have hvalue : dedent ["\t".toList, "\t  a".toList, " \u3000".toList, "  b \t".toList, []] =
      " a\n\nb".toList := by
    decide
  obtain ⟨hform, hsame⟩ := dedent_normal hlines
  rw [hvalue] at hform hsame
  rcases hform with ⟨-, hnil⟩ | ⟨hliteral, hmargin⟩
  · exact absurd hnil (by decide)
  · exact ⟨hvalue, hliteral, hmargin, hsame⟩

/-! ## The literal values of a block -/

theorem isLine_firstLine (text : List Char) : IsLine (firstLine text) := by
  intro c hc
  have hkept := List.all_eq_true.mp List.all_takeWhile c hc
  simpa using hkept

theorem isLine_literalLines (marker : Nat) (text : List Char) :
    ∀ line ∈ (literalLines marker text).1, IsLine line := by
  fun_induction literalLines marker text with
  | case1 => exact fun _ hline => absurd hline List.not_mem_nil
  | case2 => exact fun _ hline => absurd hline List.not_mem_nil
  | case3 c text first hopen lines rest hrec ih =>
      rw [hrec] at ih
      intro line hline
      rcases List.mem_cons.mp hline with rfl | hline
      · exact isLine_firstLine (c :: text)
      · exact ih line hline

theorem Reads.isLine {body rest : List Char} {forms : List Form} {lines : List (List Char)}
    (h : Reads body rest forms) (hmem : .literal lines ∈ forms) : ∀ line ∈ lines, IsLine line := by
  induction h with
  | done _ => exact absurd hmem List.not_mem_nil
  | quoted _ _ _ _ ih => exact ih (List.mem_of_ne_of_mem (by simp) hmem)
  | bare _ _ _ _ _ _ ih => exact ih (List.mem_of_ne_of_mem (by simp) hmem)
  | @literal _ after bar _ found _ _ _ _ hlines _ ih =>
      rcases List.mem_cons.mp hmem with heq | hmem
      · have hread := isLine_literalLines (column body ('-' :: after))
          (dropLineBreak (bar.dropWhile isInlineBlank))
        rw [hlines] at hread
        rwa [Form.literal.inj heq]
      · exact ih hmem

/-- Every literal value that is found in a block is empty or can be written as literal lines again. -/
theorem Finds.literal_normal {text : List Char} {forms : List Form} {lines : List (List Char)}
    (h : Finds text forms) (hmem : .literal lines ∈ forms) :
    dedent lines = [] ∨ Item.IsLiteral (dedent lines) := by
  obtain ⟨_, _, _, -, -, -, -, hreads⟩ := h
  rcases blank_or_visible lines with hblank | ⟨kept, last, hvisible⟩
  · exact Or.inl (dedent_of_blank hblank)
  · exact Or.inr (hvisible.isLiteral (hreads.isLine hmem))

end MenuActions.Grammar.Block
