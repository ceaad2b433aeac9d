import MenuActions.Text.Split
import Mathlib.Data.List.Basic

/-!
# Trimming and cutting texts

What remains of a text when the blanks around it are dropped, and where a text is cut at a
separator.  The readers of the grammar trim and cut at every level, so their theorems rest on these
facts and never unfold the functions themselves.

* `trim_eq_self_of_ends` and `trim_trim`: a text without blanks at its two ends is trimmed.
* `splitFirst_eq_some_iff` and `splitLast_eq_some_iff`: a cut is at the first or the last separator.
-/

namespace MenuActions.Text

/-! ## Blanks in front and at the end -/

theorem dropWhile_eq_cons {α : Type} {p : α → Bool} {s rest : List α} {c : α}
    (h : s.dropWhile p = c :: rest) :
    ∃ front, s = front ++ c :: rest ∧ (∀ a ∈ front, p a = true) ∧ p c = false := by
  refine ⟨s.takeWhile p, ?_, ?_, ?_⟩
  · rw [← h, List.takeWhile_append_dropWhile]
  · exact fun a ha => List.all_eq_true.mp List.all_takeWhile a ha
  · have hne : s.dropWhile p ≠ [] := by simp [h]
    have hhead := List.head_dropWhile_not p hne
    simpa [h] using hhead

/-- A run of characters of one kind ends where a character of another kind follows. -/
theorem takeWhile_append_cons {p : Char → Bool} {s rest : List Char} {c : Char}
    (hs : ∀ a ∈ s, p a = true) (hc : p c = false) :
    (s ++ c :: rest).takeWhile p = s := by
  rw [List.takeWhile_append_of_pos hs, List.takeWhile_cons_of_neg (by simp [hc]), List.append_nil]

theorem dropWhile_append_cons {p : Char → Bool} {s rest : List Char} {c : Char}
    (hs : ∀ a ∈ s, p a = true) (hc : p c = false) :
    (s ++ c :: rest).dropWhile p = c :: rest := by
  rw [List.dropWhile_append_of_pos hs, List.dropWhile_cons_of_neg (by simp [hc])]

/-- What stands behind a character of another kind does not lengthen a run. -/
theorem span_append_cons {p : Char → Bool} {s rest : List Char} {c : Char} (hc : p c = false) :
    (s ++ c :: rest).takeWhile p = s.takeWhile p ∧
      (s ++ c :: rest).dropWhile p = s.dropWhile p ++ c :: rest := by
  induction s with
  | nil => simp [hc]
  | cons a s ih =>
      by_cases ha : p a = true
      · simp [ha, ih]
      · simp [ha]

/-- Spaces and tabs are blank. -/
theorem isBlank_of_isInlineBlank {c : Char} (h : isInlineBlank c = true) : isBlank c = true := by
  have hc : c = ' ' ∨ c = '\t' := by simpa [isInlineBlank] using h
  rcases hc with rfl | rfl <;> rfl

theorem isInlineBlank_of_not_blank {c : Char} (h : isBlank c = false) : isInlineBlank c = false := by
  rw [Bool.eq_false_iff]
  intro hinline
  exact absurd ((isBlank_of_isInlineBlank hinline).symm.trans h) (by decide)

theorem isBlankText_iff {s : List Char} : isBlankText s = true ↔ ∀ c ∈ s, isBlank c = true :=
  List.all_eq_true

theorem isBlankText_append (s t : List Char) :
    isBlankText (s ++ t) = (isBlankText s && isBlankText t) :=
  List.all_append

/-- A text that is not blank has a visible character in it. -/
theorem exists_visible {s : List Char} (h : isBlankText s = false) :
    ∃ front c back, s = front ++ c :: back ∧ isBlank c = false := by
  obtain ⟨c, hc, hvisible⟩ := List.all_eq_false.mp h
  obtain ⟨front, back, rfl⟩ := List.append_of_mem hc
  exact ⟨front, c, back, rfl, Bool.eq_false_iff.mpr hvisible⟩

theorem isBlank_of_mem_singleton {c : Char} (hc : isBlank c = true) :
    ∀ a ∈ [c], isBlank a = true := by
  intro a ha
  rw [List.mem_singleton.mp ha]
  exact hc

theorem trimStart_append_cons {s rest : List Char} {c : Char}
    (hs : ∀ a ∈ s, isBlank a = true) (hc : isBlank c = false) :
    trimStart (s ++ c :: rest) = c :: rest :=
  dropWhile_append_cons hs hc

theorem trimStart_cons {s : List Char} {c : Char} (hc : isBlank c = false) :
    trimStart (c :: s) = c :: s :=
  trimStart_append_cons (s := []) (by simp) hc

theorem trimStart_cons_of_blank {s : List Char} {c : Char} (hc : isBlank c = true) :
    trimStart (c :: s) = trimStart s := by
  simp [trimStart, hc]

theorem trimStart_eq_nil_of_blank {s : List Char} (hs : ∀ a ∈ s, isBlank a = true) :
    trimStart s = [] := by
  have h := @List.dropWhile_append_of_pos _ _ s [] hs
  simpa [trimStart] using h

theorem trimEnd_append_of_blank {s t : List Char} (ht : ∀ a ∈ t, isBlank a = true) :
    trimEnd (s ++ t) = trimEnd s := by
  unfold trimEnd
  rw [List.reverse_append, List.dropWhile_append_of_pos]
  intro a ha
  exact ht a (List.mem_reverse.mp ha)

/-- A text that does not end with a blank is not shortened at its end. -/
theorem trimEnd_eq_self_of_last {s : List Char} (hs : ∀ c, s.getLast? = some c → isBlank c = false) :
    trimEnd s = s := by
  unfold trimEnd
  have hhead : ∀ c, s.reverse.head? = some c → isBlank c = false := by
    intro c hc
    rw [List.head?_reverse] at hc
    exact hs c hc
  cases hr : s.reverse with
  | nil => simp [List.reverse_eq_nil_iff.mp hr]
  | cons c rest =>
      have hc : isBlank c = false := hhead c (by simp [hr])
      rw [List.dropWhile_cons_of_neg (by simp [hc]), ← hr, List.reverse_reverse]

/-- What trimming drops at the end is blank. -/
theorem exists_blank_of_trimEnd (s : List Char) :
    ∃ blanks, s = trimEnd s ++ blanks ∧ ∀ a ∈ blanks, isBlank a = true := by
  refine ⟨(s.reverse.takeWhile isBlank).reverse, ?_, ?_⟩
  · have hsplit : s.reverse.takeWhile isBlank ++ s.reverse.dropWhile isBlank = s.reverse :=
      List.takeWhile_append_dropWhile
    have hrev := congrArg List.reverse hsplit
    rw [List.reverse_append, List.reverse_reverse] at hrev
    exact hrev.symm
  · intro a ha
    exact List.all_eq_true.mp List.all_takeWhile a (List.mem_reverse.mp ha)

/-- What stands in front of a character that is not blank is not touched at the end. -/
theorem trimEnd_append_cons {s t : List Char} {c : Char} (hc : isBlank c = false) :
    trimEnd (s ++ c :: t) = s ++ c :: trimEnd t := by
  unfold trimEnd
  rw [List.reverse_append, List.reverse_cons, List.append_assoc, List.singleton_append,
    (span_append_cons hc).2]
  simp

/-- Blanks at the end are dropped from the last part that has a visible character in it. -/
theorem trimEnd_append_of_visible (s : List Char) {t : List Char} (h : isBlankText t = false) :
    trimEnd (s ++ t) = s ++ trimEnd t := by
  obtain ⟨front, c, back, rfl, hc⟩ := exists_visible h
  rw [← List.append_assoc, trimEnd_append_cons hc, trimEnd_append_cons hc, List.append_assoc]

theorem isBlankText_trimEnd (s : List Char) : isBlankText (trimEnd s) = isBlankText s := by
  obtain ⟨back, hsplit, hback⟩ := exists_blank_of_trimEnd s
  conv_rhs => rw [hsplit, isBlankText_append, isBlankText_iff.mpr hback, Bool.and_true]

theorem mem_of_mem_trimEnd {s : List Char} {c : Char} (h : c ∈ trimEnd s) : c ∈ s := by
  obtain ⟨back, hsplit, -⟩ := exists_blank_of_trimEnd s
  rw [hsplit]
  exact List.mem_append_left back h

theorem head?_trimStart {s : List Char} {c : Char} (h : (trimStart s).head? = some c) :
    isBlank c = false := by
  cases hd : trimStart s with
  | nil => simp [hd] at h
  | cons d rest =>
      obtain ⟨-, -, -, hblank⟩ := dropWhile_eq_cons hd
      rw [hd, List.head?_cons, Option.some.injEq] at h
      exact h ▸ hblank

theorem getLast?_trimEnd {s : List Char} {c : Char} (h : (trimEnd s).getLast? = some c) :
    isBlank c = false := by
  unfold trimEnd at h
  rw [List.getLast?_reverse] at h
  exact head?_trimStart h

@[simp] theorem trimEnd_trimEnd (s : List Char) : trimEnd (trimEnd s) = trimEnd s :=
  trimEnd_eq_self_of_last fun _ => getLast?_trimEnd

theorem trimStart_eq_self_of_head {s : List Char} (hs : ∀ c, s.head? = some c → isBlank c = false) :
    trimStart s = s := by
  cases s with
  | nil => rfl
  | cons c rest => exact trimStart_cons (hs c rfl)

/-- A text with no blank at either end is trimmed. -/
theorem trim_eq_self_of_ends {s : List Char} (hhead : ∀ c, s.head? = some c → isBlank c = false)
    (hlast : ∀ c, s.getLast? = some c → isBlank c = false) : trim s = s := by
  unfold trim
  rw [trimStart_eq_self_of_head hhead, trimEnd_eq_self_of_last hlast]

/-- A text with its first and its last character in view is trimmed when neither of them is blank. -/
theorem trim_cons_concat {s : List Char} {first last : Char} (hfirst : isBlank first = false)
    (hlast : isBlank last = false) : trim (first :: (s ++ [last])) = first :: (s ++ [last]) := by
  refine trim_eq_self_of_ends (fun c hc => ?_) (fun c hc => ?_)
  · rw [List.head?_cons, Option.some.injEq] at hc
    exact hc ▸ hfirst
  · rw [← List.cons_append, List.getLast?_concat, Option.some.injEq] at hc
    exact hc ▸ hlast

theorem getLast?_trim {s : List Char} {c : Char} (h : (trim s).getLast? = some c) :
    isBlank c = false :=
  getLast?_trimEnd h

theorem head?_trim {s : List Char} {c : Char} (h : (trim s).head? = some c) :
    isBlank c = false := by
  obtain ⟨blanks, hsplit, -⟩ := exists_blank_of_trimEnd (trimStart s)
  refine head?_trimStart (s := s) ?_
  rw [hsplit, List.head?_append]
  simp only [trim] at h
  rw [h, Option.some_or]

@[simp] theorem trim_trim (s : List Char) : trim (trim s) = trim s :=
  trim_eq_self_of_ends (fun _ => head?_trim) (fun _ => getLast?_trim)

/-- A trimmed text that is not empty begins with a character that is not blank. -/
theorem head_of_trim_eq_self {s : List Char} (h : trim s = s) :
    ∀ c, s.head? = some c → isBlank c = false := by
  intro c hc
  rw [← h] at hc
  exact head?_trim hc

theorem last_of_trim_eq_self {s : List Char} (h : trim s = s) :
    ∀ c, s.getLast? = some c → isBlank c = false := by
  intro c hc
  rw [← h] at hc
  exact getLast?_trim hc

/-- What is dropped on both sides is blank. -/
theorem exists_blank_of_trim (s : List Char) :
    ∃ front back, s = front ++ (trim s ++ back) ∧ (∀ a ∈ front, isBlank a = true) ∧
      ∀ a ∈ back, isBlank a = true := by
  obtain ⟨back, hsplit, hback⟩ := exists_blank_of_trimEnd (trimStart s)
  refine ⟨s.takeWhile isBlank, back, ?_, ?_, hback⟩
  · show s = s.takeWhile isBlank ++ (trimEnd (trimStart s) ++ back)
    rw [← hsplit]
    exact List.takeWhile_append_dropWhile.symm
  · exact fun a ha => List.all_eq_true.mp List.all_takeWhile a ha

/-- Nothing is dropped in front of a text that does not begin with a blank. -/
theorem exists_blank_behind_trim {s : List Char} (hs : ∀ c, s.head? = some c → isBlank c = false) :
    ∃ back, s = trim s ++ back ∧ ∀ a ∈ back, isBlank a = true := by
  obtain ⟨front, back, hsplit, hfront, hback⟩ := exists_blank_of_trim s
  cases front with
  | nil => exact ⟨back, hsplit, hback⟩
  | cons c front =>
      have hc := hs c (by rw [hsplit]; rfl)
      rw [hfront c List.mem_cons_self] at hc
      exact absurd hc (by decide)

/-- Nothing is dropped at the end of a text that does not end with a blank. -/
theorem exists_blank_before_trim {s : List Char} (hs : ∀ c, s.getLast? = some c → isBlank c = false) :
    ∃ front, s = front ++ trim s ∧ ∀ a ∈ front, isBlank a = true := by
  obtain ⟨front, back, hsplit, hfront, hback⟩ := exists_blank_of_trim s
  rcases List.eq_nil_or_concat' back with rfl | ⟨back, c, rfl⟩
  · exact ⟨front, by rwa [List.append_nil] at hsplit, hfront⟩
  · have hc := hs c (by rw [hsplit, ← List.append_assoc, ← List.append_assoc, List.getLast?_concat])
    rw [hback c (List.mem_append_right _ List.mem_cons_self)] at hc
    exact absurd hc (by decide)

theorem mem_of_mem_trim {s : List Char} {c : Char} (h : c ∈ trim s) : c ∈ s :=
  (List.dropWhile_sublist isBlank).subset (mem_of_mem_trimEnd h)

/-- Blanks around a text make no difference to what is left of it. -/
theorem trim_append_of_blank {front s back : List Char} (hfront : ∀ a ∈ front, isBlank a = true)
    (hback : ∀ a ∈ back, isBlank a = true) : trim (front ++ (s ++ back)) = trim s := by
  have hstart : trimStart (front ++ (s ++ back)) = trimStart (s ++ back) :=
    List.dropWhile_append_of_pos hfront
  unfold trim
  rw [hstart]
  cases hs : trimStart s with
  | nil =>
      -- The whole text is blank.
      have hwhole : s.takeWhile isBlank ++ trimStart s = s := List.takeWhile_append_dropWhile
      rw [hs, List.append_nil] at hwhole
      have hblank : ∀ a ∈ s, isBlank a = true := by
        rw [← hwhole]
        exact fun a ha => List.all_eq_true.mp List.all_takeWhile a ha
      rw [trimStart_eq_nil_of_blank]
      intro a ha
      rcases List.mem_append.mp ha with ha | ha
      · exact hblank a ha
      · exact hback a ha
  | cons c rest =>
      obtain ⟨blanks, rfl, hblanks, hc⟩ := dropWhile_eq_cons hs
      rw [List.append_assoc, List.cons_append, trimStart_append_cons hblanks hc, ← List.cons_append,
        trimEnd_append_of_blank hback]

@[simp] theorem trim_trimEnd (s : List Char) : trim (trimEnd s) = trim s := by
  obtain ⟨back, hsplit, hback⟩ := exists_blank_of_trimEnd s
  conv_rhs => rw [hsplit]
  have hfront : ∀ a ∈ ([] : List Char), isBlank a = true := fun _ ha => absurd ha List.not_mem_nil
  exact (trim_append_of_blank hfront hback).symm

theorem trimEnd_eq_self_of_trim {s : List Char} (h : trim s = s) : trimEnd s = s :=
  trimEnd_eq_self_of_last (last_of_trim_eq_self h)

/-- What stands on the two sides of a character that is not blank is trimmed at the outer ends only. -/
theorem trim_append_cons {s t : List Char} {c : Char} (hc : isBlank c = false) :
    trim (s ++ c :: t) = trimStart s ++ c :: trimEnd t := by
  rw [trim, trimStart, (span_append_cons hc).2, trimEnd_append_cons hc]
  rfl

/-! ## Cuts at a separator -/

/-- A cut at the first separator leaves none in front of it. -/
theorem splitFirst_eq_some_iff {sep : Char} {s left right : List Char} :
    splitFirst sep s = some (left, right) ↔ s = left ++ sep :: right ∧ sep ∉ left := by
  induction s generalizing left with
  | nil => simp [splitFirst]
  | cons c s ih =>
      by_cases hc : c = sep
      · subst hc
        rw [splitFirst, if_pos rfl]
        constructor
        · intro h
          obtain ⟨rfl, rfl⟩ : [] = left ∧ s = right := by simpa using h
          simp
        · rintro ⟨h, hleft⟩
          cases left with
          | nil => simpa using h
          | cons d left =>
              -- The separator would stand in the part in front of itself.
              obtain ⟨rfl, -⟩ : c = d ∧ s = left ++ c :: right := by simpa using h
              exact absurd List.mem_cons_self hleft
      · rw [splitFirst, if_neg hc, Option.map_eq_some_iff]
        constructor
        · rintro ⟨⟨l, r⟩, h, hlr⟩
          obtain ⟨rfl, rfl⟩ : c :: l = left ∧ r = right := by simpa using hlr
          obtain ⟨rfl, hl⟩ := ih.mp h
          exact ⟨rfl, by simp [hl, Ne.symm hc]⟩
        · rintro ⟨h, hleft⟩
          cases left with
          | nil =>
              obtain ⟨rfl, -⟩ : c = sep ∧ s = right := by simpa using h
              exact absurd rfl hc
          | cons d left =>
              obtain ⟨rfl, rfl⟩ : c = d ∧ s = left ++ sep :: right := by simpa using h
              exact ⟨(left, right), ih.mpr ⟨rfl, fun hmem => hleft (List.mem_cons_of_mem _ hmem)⟩,
                rfl⟩

theorem splitFirst_eq_none_iff {sep : Char} {s : List Char} :
    splitFirst sep s = none ↔ sep ∉ s := by
  induction s with
  | nil => simp [splitFirst]
  | cons c s ih =>
      by_cases hc : c = sep
      · simp [splitFirst, hc]
      · simp [splitFirst, hc, ih, Ne.symm hc]

theorem splitLast_eq_none_iff {sep : Char} {s : List Char} :
    splitLast sep s = none ↔ sep ∉ s := by
  induction s with
  | nil => simp [splitLast]
  | cons c s ih =>
      unfold splitLast
      cases hs : splitLast sep s with
      | none =>
          have hmem : sep ∉ s := ih.mp hs
          by_cases hc : c = sep
          · simp [hc]
          · simp [hc, hmem, Ne.symm hc]
      | some pair =>
          have hmem : sep ∈ s := by
            by_contra hmem
            rw [ih.mpr hmem] at hs
            exact absurd hs (by simp)
          simp [hmem]

/-- Text without the separator behind the last separator does not move the cut. -/
theorem splitLast_append_cons {sep : Char} {left right : List Char} (h : sep ∉ right) :
    splitLast sep (left ++ sep :: right) = some (left, right) := by
  induction left with
  | nil => simp [splitLast, splitLast_eq_none_iff.mpr h]
  | cons c left ih => simp [splitLast, ih]

/-- A cut at the last separator leaves none behind it. -/
theorem splitLast_eq_some_iff {sep : Char} {s left right : List Char} :
    splitLast sep s = some (left, right) ↔ s = left ++ sep :: right ∧ sep ∉ right := by
  constructor
  · induction s generalizing left with
    | nil => simp [splitLast]
    | cons c s ih =>
        intro h
        unfold splitLast at h
        split at h
        · rename_i l r hs
          obtain ⟨rfl, rfl⟩ : c :: l = left ∧ r = right := by simpa using h
          obtain ⟨rfl, hr⟩ := ih hs
          exact ⟨rfl, hr⟩
        · rename_i hs
          split at h
          · rename_i hc
            obtain ⟨rfl, rfl⟩ : [] = left ∧ s = right := by simpa using h
            exact ⟨by simp [hc], splitLast_eq_none_iff.mp hs⟩
          · simp at h
  · rintro ⟨rfl, hr⟩
    exact splitLast_append_cons hr

/-! ## All pieces -/

theorem splitAll_eq_cons (sep : Char) (s : List Char) :
    ∃ piece pieces, splitAll sep s = piece :: pieces := by
  cases s with
  | nil => exact ⟨[], [], rfl⟩
  | cons c s =>
      unfold splitAll
      by_cases hc : c = sep
      · exact ⟨[], splitAll sep s, if_pos hc⟩
      · rw [if_neg hc]
        cases splitAll sep s with
        | nil => exact ⟨[c], [], rfl⟩
        | cons piece pieces => exact ⟨c :: piece, pieces, rfl⟩

theorem splitAll_sep (sep : Char) (s : List Char) :
    splitAll sep (sep :: s) = [] :: splitAll sep s := by
  rw [splitAll, if_pos rfl]

theorem splitAll_cons {sep c : Char} {s piece : List Char} {pieces : List (List Char)}
    (hc : c ≠ sep) (hs : splitAll sep s = piece :: pieces) :
    splitAll sep (c :: s) = (c :: piece) :: pieces := by
  rw [splitAll, if_neg hc, hs]

/-- A text without the separator is its only piece. -/
theorem splitAll_of_not_mem {sep : Char} {s : List Char} (h : sep ∉ s) : splitAll sep s = [s] := by
  induction s with
  | nil => rfl
  | cons c s ih =>
      have hc : c ≠ sep := fun heq => h (heq ▸ List.mem_cons_self)
      exact splitAll_cons hc (ih fun hmem => h (List.mem_cons_of_mem c hmem))

/-- The pieces of two texts with a separator between them. -/
theorem splitAll_append (sep : Char) (s t : List Char) :
    splitAll sep (s ++ sep :: t) = splitAll sep s ++ splitAll sep t := by
  induction s with
  | nil => exact splitAll_sep sep t
  | cons c s ih =>
      by_cases hc : c = sep
      · rw [hc, List.cons_append, splitAll_sep, splitAll_sep, ih]
        rfl
      · obtain ⟨piece, pieces, hs⟩ := splitAll_eq_cons sep s
        rw [hs] at ih
        rw [List.cons_append, splitAll_cons hc ih, splitAll_cons hc hs]
        rfl

theorem joinWith_cons_cons (sep piece next : List Char) (pieces : List (List Char)) :
    joinWith sep (piece :: next :: pieces) = piece ++ sep ++ joinWith sep (next :: pieces) := by
  rw [joinWith]
  simp

/-- Between every two pieces that are put together stands a separator. -/
theorem length_le_count_joinWith (sep : Char) (pieces : List (List Char)) :
    pieces.length ≤ (joinWith [sep] pieces).count sep + 1 := by
  induction pieces with
  | nil => exact Nat.zero_le _
  | cons piece pieces ih =>
      cases pieces with
      | nil => exact Nat.le_add_left 1 _
      | cons next pieces =>
          rw [joinWith_cons_cons, List.count_append, List.count_append, List.count_singleton_self,
            List.length_cons]
          omega

/-- Putting the pieces together again gives the text back. -/
theorem joinWith_splitAll (sep : Char) (s : List Char) : joinWith [sep] (splitAll sep s) = s := by
  induction s with
  | nil => rfl
  | cons c s ih =>
      obtain ⟨piece, pieces, hs⟩ := splitAll_eq_cons sep s
      rw [hs] at ih
      by_cases hc : c = sep
      · rw [hc, splitAll_sep, hs, joinWith_cons_cons, ih]
        rfl
      · rw [splitAll_cons hc hs]
        cases pieces with
        | nil => exact congrArg (c :: ·) ih
        | cons next more =>
            rw [joinWith_cons_cons] at ih ⊢
            exact congrArg (c :: ·) ih

theorem not_mem_of_mem_splitAll {sep : Char} {s piece : List Char} (h : piece ∈ splitAll sep s) :
    sep ∉ piece := by
  induction s generalizing piece with
  | nil =>
      obtain rfl : piece = [] := by simpa [splitAll] using h
      simp
  | cons c s ih =>
      obtain ⟨first, pieces, hs⟩ := splitAll_eq_cons sep s
      by_cases hc : c = sep
      · rw [hc, splitAll_sep] at h
        rcases List.mem_cons.mp h with rfl | h
        · simp
        · exact ih h
      · rw [splitAll_cons hc hs] at h
        rw [hs] at ih
        rcases List.mem_cons.mp h with rfl | h
        · have hfirst := ih List.mem_cons_self
          simp [hfirst, Ne.symm hc]
        · exact ih (List.mem_cons_of_mem _ h)

/-- The pieces of a text are made of its characters. -/
theorem mem_of_mem_splitAll {sep c : Char} {s piece : List Char} (h : piece ∈ splitAll sep s)
    (hc : c ∈ piece) : c ∈ s := by
  induction s generalizing piece with
  | nil =>
      obtain rfl : piece = [] := by simpa [splitAll] using h
      exact absurd hc (by simp)
  | cons d s ih =>
      obtain ⟨first, pieces, hs⟩ := splitAll_eq_cons sep s
      by_cases hd : d = sep
      · rw [hd, splitAll_sep] at h
        rcases List.mem_cons.mp h with rfl | h
        · exact absurd hc (by simp)
        · exact List.mem_cons_of_mem _ (ih h hc)
      · rw [splitAll_cons hd hs] at h
        rw [hs] at ih
        rcases List.mem_cons.mp h with rfl | h
        · rcases List.mem_cons.mp hc with rfl | hc
          · exact List.mem_cons_self
          · exact List.mem_cons_of_mem _ (ih List.mem_cons_self hc)
        · exact List.mem_cons_of_mem _ (ih (List.mem_cons_of_mem _ h) hc)

end MenuActions.Text
